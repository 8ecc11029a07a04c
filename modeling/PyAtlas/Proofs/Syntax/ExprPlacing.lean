import PyAtlas.Proofs.Syntax.ExprProgress
import PyAtlas.Proofs.Syntax.TreeRows

/-!
# Where expressions stand

Every production for expressions yields the trees of its result, given a parser of the expressions
in it that does. The operand at the left of a continuation has been read before, and so has the
token that opens a bracket: such productions put what has been read since then under one node.

## Key results
- `Turns.exprWith`: the production for whole expressions, given the one for the expressions in it.
- `PlacedExprs.parseExpr`: an expression yields its tree.
-/

namespace PyAtlas

/-- The expressions that a parser reads stand where it has read them. Each of them begins with the
    next token. -/
structure PlacedExprs (w : Survey) (e : Parser.ExprParser) : Prop where
  yields : ∀ precedence, Yields w (e precedence) fun r => [r.spanTree]
  takes : ∀ precedence, Consumes w (fun _ => True) (e precedence)

namespace Turns

open PyAtlas.Parser

variable {w : Survey} {K : Cursor → Prop} {start : Option Span} {B : List SpanTree} {e : ExprParser}

/-! ### Lists of expressions -/

theorem starred (he : PlacedExprs w e) (star : Token) :
    Turns w K (some star.span) [] (Parser.starred e star) fun r => [r.spanTree] := by
  unfold Parser.starred
  refine (he.yields _).after.bind fun value => ?_
  exact merge_done [value.spanTree] (by simp [Expr.spanTree, Span.mergeAll]) (.refl _)
    (List.Subset.refl _) fun t ht => .inl ht

theorem starOrExpr (he : PlacedExprs w e) :
    Yields w (Parser.starOrExpr e) fun r => [r.spanTree] := by
  unfold Parser.starOrExpr
  refine peek_bind fun token hsound => .ite (fun hstar => ?_) fun _ => (he.yields _).anywhere
  refine advance_opens (fun c hc => ⟨hc.2, ?_⟩) (starred he token)
  rw [hc.2, eq_of_beq hstar]
  rfl

theorem moreStarExprs (he : PlacedExprs w e) (items : List Expr) :
    Turns w K start (exprTrees items) (Parser.moreStarExprs e items) exprTrees := by
  unfold Parser.moreStarExprs
  refine loop_id (fun items => ?_) items
  refine eats_bind (look_bind_any fun _ => .ite (fun _ => ?_) fun _ => done rfl) (done rfl)
  exact (starOrExpr he).after.bind fun item => done (exprTrees_append items [item])

theorem starExprs (he : PlacedExprs w e) : Yields w (Parser.starExprs e) fun r => [r.spanTree] := by
  unfold Parser.starExprs
  refine (starOrExpr he).bind fun first => look_bind_any fun _ => .ite (fun _ => ?_)
    fun _ => done rfl
  refine first_begins first.span_spanTree ?_
  refine (moreStarExprs he [first]).bind fun items => ?_
  exact spanFrom_done (fun _ => rfl) (.refl _)

/-! ### Brackets -/

theorem expectClosing (closing : Operator) :
    Turns w K start B (Parser.expectClosing closing) fun _ => B := by
  unfold Parser.expectClosing
  refine peek_bind fun token hsound => eats_bind (done rfl) (expected_bind hsound ?_)
  exact skipToClosing.bind fun _ => eat.discard

theorem comprehension (s : Span) (closing : Operator) :
    Turns w K (some s) B (Parser.comprehension s closing) fun r => [r.spanTree] := by
  unfold Parser.comprehension
  refine skipToClosing.bind fun _ => (expectClosing closing).bind fun _ => ?_
  exact spanFrom_bare fun _ => rfl

theorem moreItems (he : PlacedExprs w e) (closing : Operator) (items : List Expr) :
    Turns w K start (exprTrees items) (Parser.moreItems e closing items) exprTrees := by
  unfold Parser.moreItems
  refine loop_id (fun items => ?_) items
  refine eats_bind (look_bind_any fun _ => .ite (fun _ => done rfl) fun _ => ?_) (done rfl)
  exact (starOrExpr he).after.bind fun item => done (exprTrees_append items [item])

theorem yieldExpr (he : PlacedExprs w e) (s : Span) :
    Turns w K (some s) B (Parser.yieldExpr e s) fun r => [r.spanTree] := by
  have hdone : Turns w (fun _ => True) (some s) B
      (spanFrom s >>= fun span => Pure.pure (Expr.other span)) fun r => [r.spanTree] :=
    spanFrom_bare fun _ => rfl
  unfold Parser.yieldExpr
  refine eats_bind ?_ (look_bind_any fun _ => .ite (fun _ => ?_) fun _ => hdone.anywhere)
  · exact (he.yields _).after.passes.discard.bind fun _ => hdone
  · exact (starExprs he).after.passes.discard.bind fun _ => hdone

/-- The operand of a yield in parentheses is not kept. -/
theorem yieldExpr_passes (he : PlacedExprs w e) (s : Span) :
    Turns w K start B (Parser.yieldExpr e s) fun _ => B := by
  unfold Parser.yieldExpr
  refine eats_bind ?_ (look_bind_any fun _ => .ite (fun _ => ?_) fun _ => ?_)
  · exact (he.yields _).after.passes.discard.bind fun _ => look_bind_any fun _ => done rfl
  · exact (starExprs he).after.passes.discard.bind fun _ => look_bind_any fun _ => done rfl
  · exact look_bind_any fun _ => done rfl

theorem parenthesized (v : Version) (he : PlacedExprs w e) (s : Span) :
    Turns w K (some s) [] (Parser.parenthesized v e s) fun r => [r.spanTree] := by
  unfold Parser.parenthesized
  refine eats_bind (spanFrom_bare fun _ => rfl) ?_
  refine eat_bind (fun word _ _ => ?_) ?_
  · refine (yieldExpr_passes he word.span).discard.bind fun _ => (expectClosing _).bind fun _ => ?_
    exact spanFrom_bare fun _ => rfl
  · refine (starOrExpr he).after.bind fun first => look_bind_any fun _ => ?_
    refine .ite (fun _ => comprehension s _) fun _ => look_bind_any fun _ => .ite (fun _ => ?_)
      fun _ => (expectClosing _).bind fun _ => done rfl
    refine (moreItems he _ [first]).bind fun items => (expectClosing _).bind fun _ => ?_
    exact spanFrom_done (fun _ => rfl) (.refl _)

theorem listDisplay (v : Version) (he : PlacedExprs w e) (s : Span) :
    Turns w K (some s) [] (Parser.listDisplay v e s) fun r => [r.spanTree] := by
  unfold Parser.listDisplay
  refine eats_bind (spanFrom_bare fun _ => rfl) ?_
  refine (starOrExpr he).after.bind fun first => look_bind_any fun _ => ?_
  refine .ite (fun _ => comprehension s _) fun _ => ?_
  refine (moreItems he _ [first]).bind fun items => (expectClosing _).bind fun _ => ?_
  exact spanFrom_done (fun _ => rfl) (.refl _)

theorem dictEntry (he : PlacedExprs w e) :
    Yields w (Parser.dictEntry e) fun entry => entryTrees entry.toList := by
  unfold Parser.dictEntry
  refine peek_bind fun token hsound => ?_
  refine eats_adds [.node token.span []] (fun _ hc => hc.2) rfl hsound.node ?_ ?_
  · exact (he.yields _).after.bind fun value => done rfl
  · refine (he.yields _).anywhere.bind fun key => peek_bind fun colon hcolon => ?_
    refine eats_bind ((he.yields _).after.bind fun value => done rfl) (expected_bind hcolon ?_)
    refine skipToClosing.bind fun _ => eat.discard.bind fun _ => ?_
    exact pure (List.nil_sublist _)

/-- The entries of a dictionary. A comprehension has none. -/
theorem dictEntries (v : Version) (he : PlacedExprs w e) :
    Yields w (Parser.dictEntries v e) fun items => entryTrees (Option.getD items []) := by
  unfold Parser.dictEntries Parser.moreEntries
  refine loop (S := entryTrees) (T := fun items => entryTrees (Option.getD items []))
    (fun items => ?_) (fun _ => rfl) []
  refine (dictEntry he).after.bind fun entry => ?_
  cases entry with
  | none => exact pure (List.sublist_append_left _ _)
  | some entry =>
    have hadded : entryTrees (items ++ [entry]) = entryTrees items ++ entryTrees [entry] :=
      entryTrees_append items [entry]
    refine look_bind_any fun _ => .ite (fun _ => pure (List.nil_sublist _)) fun _ => ?_
    refine eats_bind (look_bind_any fun _ => .ite (fun _ => ?_) fun _ => done hadded) ?_
    · exact (expectClosing _).bind fun _ => done hadded
    · exact (expectClosing _).bind fun _ => done hadded

theorem curlyDisplay (v : Version) (he : PlacedExprs w e) (s : Span) :
    Turns w K (some s) [] (Parser.curlyDisplay v e s) fun r => [r.spanTree] := by
  unfold Parser.curlyDisplay
  refine eats_bind (spanFrom_bare fun _ => rfl) ?_
  refine look_bind_any fun _ => .ite (fun _ => ?_) fun _ => ?_
  · refine (dictEntries v he).after.bind fun items => ?_
    cases items with
    | some items => exact spanFrom_done (fun _ => rfl) (.refl _)
    | none => exact comprehension s _
  · refine (starOrExpr he).after.bind fun first => look_bind_any fun _ => ?_
    refine .ite (fun _ => comprehension s _) fun _ => ?_
    refine (moreItems he _ [first]).bind fun items => (expectClosing _).bind fun _ => ?_
    exact spanFrom_done (fun _ => rfl) (.refl _)

/-! ### Subscripts -/

theorem boundStep (he : PlacedExprs w e) (u : Unit) :
    Turns w K start B (Parser.boundStep e u) fun _ => B := by
  unfold Parser.boundStep
  refine eats_bind (look_bind_any fun _ => ?_) (done rfl)
  split
  · exact done rfl
  · exact done rfl
  · exact done rfl
  · exact (he.yields _).after.passes.discard.bind fun _ => done rfl

theorem sliceBounds (he : PlacedExprs w e) :
    Turns w K start B (Parser.sliceBounds e) fun _ => B :=
  loop_passes (boundStep he) ()

theorem slice (he : PlacedExprs w e) (s : Span) :
    Turns w K (some s) B (Parser.slice e s) fun r => [r.spanTree] := by
  unfold Parser.slice
  refine (sliceBounds he).bind fun _ => ?_
  exact spanFrom_bare fun _ => rfl

end Turns

namespace Consumes

open PyAtlas.Parser

variable {w : Survey} {K : Cursor → Prop} {e : ExprParser}

theorem starOrExpr (he : PlacedExprs w e) : Consumes w K (Parser.starOrExpr e) := by
  unfold Parser.starOrExpr
  refine look_bind fun token => .ite (fun hstar => ?_) fun _ => (he.takes _).of fun _ _ => trivial
  refine advance_bind (fun c hc => ?_) (Turns.starred (K := fun _ => True) he token).onward
  rw [hc.2, eq_of_beq hstar]
  rfl

theorem starExprs (he : PlacedExprs w e) : Consumes w K (Parser.starExprs e) := by
  unfold Parser.starExprs
  refine (starOrExpr he).bind (Turns.starOrExpr he).onward fun first => .look_bind fun _ => ?_
  refine .ite ?_ .pure
  exact (Turns.moreStarExprs he [first] : Turns w (fun _ => True) none _ _ _).onward.bind
    fun _ => .look_bind fun _ => .pure

theorem expectClosing {closing : Operator} : Consumes w K (Parser.expectClosing closing) := by
  unfold Parser.expectClosing
  refine look_bind fun token => eats_bind rfl .pure (report_bind ?_)
  exact GoesOn.skipToClosing.bind fun _ => GoesOn.eat.discard

/-- A slice without a lower bound begins with its colon. -/
theorem sliceBounds (he : PlacedExprs w e) :
    Consumes w (fun c => c.kind = .operator .colon) (Parser.sliceBounds e) := by
  refine loop ?_ ?_ fun u => ?_
  · unfold Parser.boundStep
    refine eats_bind rfl (.look_bind fun k => ?_) fun s _ hk => absurd hk.1 hk.2
    split
    · exact .pure
    · exact .pure
    · exact .pure
    · exact (he.yields _).onward.discard.bind fun _ => .pure
  · exact (Turns.boundStep he () : Yields w _ _).onward
  · exact (Turns.sliceBounds he : Yields w _ _).onward

end Consumes

namespace Turns

open PyAtlas.Parser

variable {w : Survey} {K : Cursor → Prop} {start : Option Span} {B : List SpanTree} {e : ExprParser}

theorem subscriptItem (he : PlacedExprs w e) :
    Yields w (Parser.subscriptItem e) fun r => [r.spanTree] := by
  unfold Parser.subscriptItem
  refine peek_bind fun token hsound => .ite (fun hcolon => ?_) fun _ => ?_
  · unfold Parser.slice
    refine (opens_bind (B := []) (sliceBounds he) (Consumes.sliceBounds he) hsound fun _ => ?_).of
      fun c hc => ⟨?_, hc.2⟩
    · exact spanFrom_bare fun _ => rfl
    · rw [Cursor.kind_eq, hc.2, eq_of_beq hcolon]
  · refine opens_bind (B := []) (starOrExpr he) (Consumes.starOrExpr he) hsound fun lower => ?_
    exact look_bind_any fun _ => .ite (fun _ => slice he _) fun _ => done rfl

theorem subscriptStep (he : PlacedExprs w e) (before : List Expr × Bool) :
    Turns w K start (exprTrees before.1) (Parser.subscriptStep e before)
      fun r => r.trees (fun items => exprTrees items.1) fun items => exprTrees items.1 := by
  obtain ⟨items, separated⟩ := before
  unfold Parser.subscriptStep
  refine look_bind_any fun _ => .ite (fun _ => done rfl) fun _ => ?_
  have hadded (item : Expr) : exprTrees (items ++ [item]) = exprTrees items ++ [item.spanTree] :=
    exprTrees_append items [item]
  refine (subscriptItem he).after.bind fun item => eats_bind ?_ ?_
  · exact done (hadded item)
  · exact done (hadded item)

theorem subscriptItems (he : PlacedExprs w e) :
    Yields w (Parser.subscriptItems e) fun items => exprTrees items.1 :=
  loop_id (S := fun items => exprTrees items.1) (subscriptStep he) ([], false)

end Turns

namespace Consumes

open PyAtlas.Parser

variable {w : Survey} {K : Cursor → Prop} {e : ExprParser}

theorem subscriptItem (he : PlacedExprs w e) : Consumes w K (Parser.subscriptItem e) := by
  unfold Parser.subscriptItem
  refine look_bind fun token => .ite (fun hcolon => ?_) fun _ => ?_
  · unfold Parser.slice
    refine ((sliceBounds he).of fun c hc => ?_).bind ?_ fun _ => .look_bind fun _ => .pure
    · rw [Cursor.kind_eq, hc.2, eq_of_beq hcolon]
    · exact (Turns.sliceBounds he : Yields w _ _).onward
  · refine (starOrExpr he).bind (Turns.starOrExpr he).onward fun lower => .look_bind fun _ => ?_
    refine .ite ?_ .pure
    exact (Turns.slice (K := fun _ => True) (B := []) he _).onward

/-- Where the bracket is closed at once, or the line ends, there are no items. -/
theorem subscriptItems_of_end {s : ParserState}
    (hend : (s.cursor.kind == .operator .rBracket || s.cursor.kind.isLineEnd) = true) :
    Parser.subscriptItems e s = (([], false), s) := by
  have hstep : Parser.subscriptStep e ([], false) s = (.finished ([], false), s) := by
    show (if _ then _ else _ : Parser _) s = _
    rw [if_pos hend]
    rfl
  rw [Parser.subscriptItems, loop_eq, hstep]

/-- Otherwise they begin with the next token. -/
theorem subscriptItems (he : PlacedExprs w e) :
    Consumes w (fun c => ¬ (c.kind == .operator .rBracket || c.kind.isLineEnd) = true)
      (Parser.subscriptItems e) := by
  refine loop ?_ (Turns.subscriptStep he _ : Turns w (fun _ => True) none _ _ _).onward
    fun before => ?_
  · unfold Parser.subscriptStep
    refine look_bind fun k => .ite (fun hk => ?_) fun _ => ?_
    · exact fun t _ ht => absurd (ht.2 ▸ hk) ht.1
    · refine (subscriptItem he).bind (Turns.subscriptItem he).onward fun item => ?_
      exact GoesOn.eats_bind .pure .pure
  · have hloop : Turns w (fun _ => True) none _ _ fun items : List Expr × Bool =>
        exprTrees items.1 := .loop_id (Turns.subscriptStep he) before
    exact hloop.onward

/-- What stands between the brackets of a subscript, and the bracket behind it. -/
theorem closedSubscript (he : PlacedExprs w e) : Consumes w K (do
    let items ← Parser.subscriptItems e
    Parser.expectClosing .rBracket
    pure items) := by
  have hclosing : GoesOn w (Parser.expectClosing .rBracket) :=
    (Turns.expectClosing _ : Yields w _ _).onward
  intro s hs _
  by_cases hend : (s.cursor.kind == .operator .rBracket || s.cursor.kind.isLineEnd) = true
  -- With nothing between the brackets the token is the one that closes.
  · refine bind_stay (K := fun c => (c.kind == .operator .rBracket || c.kind.isLineEnd) = true)
      (fun _ => subscriptItems_of_end) ?_ s hs hend
    exact expectClosing.bind hclosing fun _ => .pure
  · refine (subscriptItems he).bind (Turns.subscriptItems he).onward (fun _ => ?_) s hs hend
    exact hclosing.bind fun _ => .pure

end Consumes

namespace Turns

open PyAtlas.Parser

variable {w : Survey} {K : Cursor → Prop} {start : Option Span} {B : List SpanTree} {e : ExprParser}

theorem subscript (he : PlacedExprs w e) : Yields w (Parser.subscript e) fun r => [r.spanTree] := by
  have hclosed : Yields w (do
      let items ← Parser.subscriptItems e
      Parser.expectClosing .rBracket
      Pure.pure items) fun items => exprTrees items.1 :=
    (subscriptItems he).bind fun items => (expectClosing _).bind fun _ => done rfl
  unfold Parser.subscript
  refine peek_bind fun token hsound => ?_
  refine opens_bind_discard hclosed (Consumes.closedSubscript he) hsound fun items => ?_
  split
  · rename_i item hitems _
    exact done (by rw [hitems]; rfl)
  · exact spanFrom_done (fun _ => rfl) (.refl _)

/-! ### Calls -/

theorem positionalArgument (v : Version) (he : PlacedExprs w e) :
    Yields w (Parser.positionalArgument v e) Argument.spanTrees := by
  unfold Parser.positionalArgument
  refine (he.yields _).bind fun value => look_bind_any fun _ => .ite (fun _ => ?_) fun _ => done rfl
  refine first_begins value.span_spanTree (skipToClosing.bind fun _ => ?_)
  exact spanFrom_bare fun _ => rfl

theorem argument (v : Version) (he : PlacedExprs w e) :
    Yields w (Parser.argument v e) Argument.spanTrees := by
  unfold Parser.argument
  refine peek_bind fun token hsound => ?_
  split
  · exact advance.bind fun _ => map (he.yields _).after
  · exact advance.bind fun _ => map (he.yields _).after
  · split
    · rename_i name hname
      refine look_bind_any fun _ => .ite (fun _ => ?_) fun _ => (positionalArgument v he).anywhere
      refine (advance_adds (fun c hc => ⟨hc.2, ?_⟩) (hsound.mention hname)).bind fun _ => ?_
      · rw [hc.2, isLayout_of_identifier? hname]
      · exact advance.bind fun _ => map (he.yields _).after
    · exact (positionalArgument v he).anywhere

theorem argumentEnd (arguments : List Argument) :
    Turns w K start (argumentTrees arguments) (Parser.argumentEnd arguments)
      fun r => r.trees argumentTrees argumentTrees := by
  unfold Parser.argumentEnd
  refine peek_bind fun token hsound => ?_
  split
  · exact done rfl
  · exact done rfl
  · refine expected_bind hsound (skipToClosing.bind fun _ => ?_)
    exact eat.discard.bind fun _ => done rfl

theorem callArguments (v : Version) (he : PlacedExprs w e) :
    Yields w (Parser.callArguments v e) argumentTrees := by
  unfold Parser.callArguments Parser.moreArguments
  refine loop_id (S := argumentTrees) (fun arguments => ?_) []
  refine look_bind_any fun _ => .ite (fun _ => advance.bind fun _ => done rfl) fun _ => ?_
  refine .ite (fun _ => advance.bind fun _ => done rfl) fun _ => ?_
  refine (argument v he).after.bind fun item => ?_
  have hadded :
      argumentTrees arguments ++ item.spanTrees = argumentTrees (arguments ++ [item]) := by
    simp [argumentTrees]
  rw [hadded]
  exact argumentEnd _

/-! ### Operands -/

theorem unary (he : PlacedExprs w e) (op : UnaryOp) (precedence : Precedence) (s : Span) :
    Turns w K (some s) [] (Parser.unary e op precedence s) fun r => [r.spanTree] := by
  unfold Parser.unary
  refine (he.yields _).after.bind fun operand => ?_
  exact merge_done [operand.spanTree] (by simp [Expr.spanTree, Span.mergeAll]) (.refl _)
    (List.Subset.refl _) fun t ht => .inl ht

theorem lambdaParameters : Turns w K start B Parser.lambdaParameters fun _ => B := by
  unfold Parser.lambdaParameters
  refine loop_passes (fun depth => peek_bind fun token hsound => ?_) 0
  split
  · exact (expected hsound).bind fun _ => done rfl
  · exact (expected hsound).bind fun _ => done rfl
  · refine .ite (fun _ => advance.bind fun _ => done rfl) fun _ => ?_
    refine .ite (fun _ => advance.bind fun _ => done rfl) fun _ => ?_
    refine .ite (fun _ => ?_) fun _ => advance.bind fun _ => done rfl
    refine .ite (fun _ => (expected hsound).bind fun _ => done rfl) fun _ => ?_
    exact advance.bind fun _ => done rfl
  · exact advance.bind fun _ => done rfl

theorem lambda (he : PlacedExprs w e) (s : Span) :
    Turns w K (some s) [] (Parser.lambda e s) fun r => [r.spanTree] := by
  unfold Parser.lambda
  refine lambdaParameters.bind fun _ => .ite (fun _ => ?_) fun _ => ?_
  · refine (he.yields _).after.bind fun body => ?_
    exact merge_done [body.spanTree]
      (by simp [Expr.spanTree, Span.mergeAll]) (List.nil_sublist _) (List.Subset.refl _) nofun
  · exact spanFrom_bare fun _ => rfl

theorem backquoted (he : PlacedExprs w e) (s : Span) :
    Turns w K (some s) [] (Parser.backquoted e s) fun r => [r.spanTree] := by
  unfold Parser.backquoted
  refine (starExprs he).after.passes.discard.bind fun _ => peek_bind fun token hsound => ?_
  refine eats_bind (spanFrom_bare fun _ => rfl) (expected_bind hsound ?_)
  exact spanFrom_bare fun _ => rfl

theorem moreStrings (first : Token) :
    Turns w K (some first.span) [] (Parser.moreStrings first) fun r => [.node r.2 []] := by
  unfold Parser.moreStrings
  refine start_counts (loop_id (S := fun r : String × Span => [.node r.2 []])
    (fun (value, span) => ?_) (stringValue first, first.span))
  refine peek_bind fun token hsound => ?_
  split
  · rename_i hkind
    refine (advance_adds (fun c hc => ⟨hc.2, ?_⟩) hsound.node).bind fun _ => ?_
    · rw [hc.2, hkind]
      rfl
    · exact pure_of fun _ _ _ hsince => hsince.row.merge
  · exact done rfl

theorem operandAfter (v : Version) (he : PlacedExprs w e) {token : Token}
    (hsound : token.Sound w.source) :
    Turns w K (some token.span) [] (Parser.operandAfter v e token) fun r => [r.spanTree] := by
  unfold Parser.operandAfter
  split
  · exact (moreStrings token).bind fun _ => done rfl
  · exact start_done rfl
  · exact start_done rfl
  · exact start_done rfl
  · exact start_done rfl
  · exact start_done rfl
  · exact start_done rfl
  · exact start_done rfl
  · exact parenthesized v he _
  · exact listDisplay v he _
  · exact curlyDisplay v he _
  · exact unary he _ _ _
  · exact unary he _ _ _
  · exact unary he _ _ _
  · exact unary he _ _ _
  · exact unary he _ _ _
  · exact starred he token
  · exact lambda he _
  · exact yieldExpr he _
  · exact backquoted he _
  · exact report_bind hsound.inText (start_done rfl)
  · exact expected_bind hsound (start_done rfl)

theorem operand (v : Version) (he : PlacedExprs w e) :
    Yields w (Parser.operand v e) fun r => [r.spanTree] := by
  unfold Parser.operand
  refine peek_bind fun token hsound => ?_
  split
  · rename_i ident hident
    have hplain := isLayout_of_identifier? hident
    refine look_bind_any fun _ => .ite (fun _ => ?_) fun _ => ?_
    · exact advance_opens (fun c hc => ⟨hc.2, hc.2 ▸ hplain⟩) (unary he _ _ _)
    · refine (advance_adds (fun c hc => ⟨hc.2, ?_⟩) (hsound.mention hident)).bind fun _ => done rfl
      rw [hc.2, hplain]
  · refine .ite (fun _ => expected_bind hsound ?_) fun hends => ?_
    · exact node_done (fun _ hk => hk) hsound.inText rfl
    · have hplain := Stays.isLayout_of_endsOperand hends
      exact advance_opens (fun c hc => ⟨hc.2, hc.2 ▸ hplain⟩) (operandAfter v he hsound)

/-! ### Continuations -/

theorem conditional (he : PlacedExprs w e) (s : Span) :
    Turns w K (some s) B (Parser.conditional e s) fun r => [r.spanTree] := by
  unfold Parser.conditional
  refine (he.yields _).after.passes.discard.bind fun _ => peek_bind fun token hsound => ?_
  refine eats_bind ?_ (expected_bind hsound ?_)
  · refine (he.yields _).after.passes.discard.bind fun _ => ?_
    exact spanFrom_bare fun _ => rfl
  · exact spanFrom_bare fun _ => rfl

theorem continued (v : Version) (he : PlacedExprs w e) (lhs : Expr) {token : Token}
    (hsound : token.Sound w.source) (continuation : Continuation) :
    Turns w K none [lhs.spanTree] (Parser.continued v e lhs token continuation)
      fun r => [r.spanTree] := by
  refine first_begins lhs.span_spanTree ?_
  unfold Parser.continued
  split
  · refine (callArguments v he).after.bind fun arguments => ?_
    exact spanFrom_done (fun _ => rfl) (.refl _)
  · exact (subscript he).after.bind fun index => spanFrom_done (fun _ => rfl) (.refl _)
  · refine expectIdentifier_bind (fun attr => ?_) ?_
    · exact merge_done [attr.spanTree] rfl (.refl _) (by simp) (by simp)
    · exact merged_node_done (fun _ hk => hk) hsound.inText rfl
  · exact conditional he _
  · refine (he.yields _).after.bind fun value => ?_
    exact merge_done [value.spanTree]
      (by simp [Expr.spanTree, Span.mergeAll]) (List.nil_sublist _) (by simp) nofun
  · have hrhs {K : Cursor → Prop} (op : BinaryOp) (precedence : Precedence) :
        Turns w K (some lhs.span) [lhs.spanTree]
          (e precedence >>= fun rhs => Pure.pure (binary op lhs rhs)) fun r => [r.spanTree] := by
      refine (he.yields _).after.bind fun rhs => ?_
      exact merge_done [rhs.spanTree]
        (by simp [binary, Expr.spanTree, Span.mergeAll]) (.refl _) (by simp) (by simp)
    exact .ite (fun _ => advance.bind fun _ => hrhs _ _) fun _ => hrhs _ _

theorem continuations (v : Version) (he : PlacedExprs w e) (precedence : Precedence) (lhs : Expr) :
    Turns w K none [lhs.spanTree] (Parser.continuations v e precedence lhs)
      fun r => [r.spanTree] := by
  unfold Parser.continuations
  refine loop_id (S := fun r : Expr => [r.spanTree]) (fun lhs => look_bind_any fun found => ?_) lhs
  cases found with
  | none => exact done rfl
  | some continuation =>
    refine .ite (fun _ => done rfl) fun _ => next_bind fun token hsound => advance.bind fun _ => ?_
    exact map (continued v he lhs hsound continuation)

theorem exprWith (v : Version) (he : PlacedExprs w e) (precedence : Precedence) :
    Yields w (Parser.exprWith v e precedence) fun r => [r.spanTree] := by
  unfold Parser.exprWith
  exact (operand v he).bind fun lhs => continuations v he precedence lhs

end Turns

/-! ### Expressions in expressions -/

namespace Consumes

open PyAtlas.Parser

variable {w : Survey} {K : Cursor → Prop} {e : ExprParser}

theorem operand (v : Version) (he : PlacedExprs w e) : Consumes w K (Parser.operand v e) := by
  unfold Parser.operand
  refine peek_bind fun token hsound => ?_
  split
  · rename_i ident hident
    have hplain := isLayout_of_identifier? hident
    refine look_bind fun _ => .ite (fun _ => ?_) fun _ => ?_
    · exact advance_bind (fun c hc => hc.1.2 ▸ hplain)
        (Turns.unary (K := fun _ => True) he _ _ _).onward
    · exact advance_bind (fun c hc => hc.1.2 ▸ hplain) .pure
  · refine .ite (fun _ => report_bind .pure) fun hends => ?_
    have hplain := Stays.isLayout_of_endsOperand hends
    exact advance_bind (fun c hc => hc.2 ▸ hplain)
      (Turns.operandAfter (K := fun _ => True) v he hsound).onward

theorem exprWith (v : Version) (he : PlacedExprs w e) (precedence : Precedence) :
    Consumes w K (Parser.exprWith v e precedence) := by
  unfold Parser.exprWith
  exact (operand v he).bind (Turns.operand v he).onward fun lhs =>
    (Turns.continuations (K := fun _ => True) v he precedence lhs).onward

end Consumes

namespace PlacedExprs

open PyAtlas.Parser

variable {w : Survey} {e : ExprParser}

theorem exprWith (v : Version) (he : PlacedExprs w e) : PlacedExprs w (Parser.exprWith v e) where
  yields := Turns.exprWith v he
  takes := Consumes.exprWith v he

/-- A parser of expressions that does in every state what some other one does. -/
theorem of_pointwise
    (h : ∀ s, ∃ e', PlacedExprs w e' ∧ ∀ precedence, e precedence s = e' precedence s) :
    PlacedExprs w e where
  yields precedence := .of_pointwise fun s => by
    obtain ⟨e', he', heq⟩ := h s
    exact ⟨e' precedence, he'.yields precedence, heq precedence⟩
  takes precedence s hs hk hq hsame := by
    obtain ⟨e', he', heq⟩ := h s
    rw [heq] at hsame ⊢
    exact he'.takes precedence s hs hk hq hsame

end PlacedExprs

/-- Expressions where fewer than `m` tokens are left. Elsewhere `e` is run. -/
def Parser.exprBelow (v : Version) (e : ExprParser) (m : Nat) : ExprParser := fun precedence s =>
  if s.remaining < m then parseExpr v precedence s else e precedence s

/-- What holds of some parser of expressions, goes over from the parser of the expressions in an
    expression to that of the whole, and is told by what is done in every state, holds of the parser
    of expressions. -/
theorem Parser.parseExpr_closed {v : Version} {C : ExprParser → Prop} {e : ExprParser} (he : C e)
    (hwith : ∀ e, C e → C (exprWith v e))
    (hpointwise : ∀ e, (∀ s, ∃ e', C e' ∧ ∀ precedence, e precedence s = e' precedence s) → C e) :
    C (parseExpr v) := by
  have hbelow : ∀ m, C (exprBelow v e m) := by
    intro m
    induction m with
    | zero => exact hpointwise _ fun s => ⟨e, he, fun _ => if_neg (Nat.not_lt_zero _)⟩
    | succ m ih =>
      refine hpointwise _ fun s => ?_
      rcases Nat.lt_trichotomy s.remaining m with hlt | heq | hgt
      · refine ⟨_, ih, fun precedence => ?_⟩
        rw [exprBelow, exprBelow, if_pos hlt, if_pos (Nat.lt_succ_of_lt hlt)]
      -- What is in the expression has fewer tokens than the expression.
      · refine ⟨_, hwith _ ih, fun precedence => ?_⟩
        rw [exprBelow, if_pos (by omega)]
        exact (exprWith_eq_parseExpr (fun inner t ht => if_pos (heq ▸ ht)) precedence).symm
      · exact ⟨e, he, fun precedence => if_neg (by omega)⟩
  exact hpointwise _ fun s => ⟨_, hbelow (s.remaining + 1), fun _ =>
    (if_pos (Nat.lt_succ_self _)).symm⟩

namespace PlacedExprs

open PyAtlas.Parser

variable {w : Survey}

theorem missing : PlacedExprs w fun _ => do
    let token ← peek
    expected .expression token
    pure (.error token.span) where
  yields _ := Turns.peek_bind fun _ hsound => Turns.expected_bind hsound
    (Turns.node_done (fun _ hk => hk) hsound.inText rfl)
  takes _ := Consumes.look_bind fun _ => Consumes.report_bind .pure

theorem parseExpr (v : Version) : PlacedExprs w (Parser.parseExpr v) :=
  parseExpr_closed missing (fun _ he => he.exprWith v) fun _ => of_pointwise

end PlacedExprs

/-! ### Whole expressions -/

section Whole

open PyAtlas.Parser

variable {w : Survey} {K : Cursor → Prop} {v : Version}

theorem Yields.expression : Yields w (Parser.expression v) fun r => [r.spanTree] :=
  (PlacedExprs.parseExpr v).yields _

theorem Yields.starExpressions : Yields w (Parser.starExpressions v) fun r => [r.spanTree] :=
  Turns.starExprs (PlacedExprs.parseExpr v)

theorem Consumes.starExpressions : Consumes w K (Parser.starExpressions v) :=
  Consumes.starExprs (PlacedExprs.parseExpr v)

end Whole

end PyAtlas
