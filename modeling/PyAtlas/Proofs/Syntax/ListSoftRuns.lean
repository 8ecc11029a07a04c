import PyAtlas.Proofs.Syntax.ExprProgress
import PyAtlas.Proofs.Syntax.SoftRuns

/-!
# Lists of expressions with two words reserved and without

Before `async` a list of expressions ends under 3.7, also behind a comma. Where the word is not
reserved the list goes on with a name. In front of the `for` of a comprehension that name is all
that is read before the list ends there as well.

## Key definitions
- `ExprsEnd`: expressions end at the same place, or before an asynchronous comprehension.

## Key results
- `Leads.parseExpr_await`: behind a reserved `await` an operand has to begin.
- `Ends.starExprs`: lists end as expressions do.
-/

namespace PyAtlas

open PyAtlas.Parser

variable {source : String} {m : Nat} {v : Version} {s u : ParserState}

/-! ### What an expression begins with -/

/-- The parser of whole expressions is what its production makes of it. -/
theorem Parser.parseExpr_eq (v : Version) (precedence : Precedence) :
    Parser.parseExpr v precedence = exprWith v (Parser.parseExpr v) precedence :=
  funext fun _ => (exprWith_eq_parseExpr (fun _ _ _ => rfl) precedence).symm

theorem Onward.parseExpr (v : Version) (precedence : Precedence) (s : ParserState) :
    Onward s (Parser.parseExpr v precedence s).2 :=
  (Quiet.parseExpr (m := 0) v precedence [] 0).onward s

theorem Onward.continuations (v : Version) (precedence : Precedence) (lhs : Expr)
    (s : ParserState) : Onward s (Parser.continuations v (Parser.parseExpr v) precedence lhs s).2 :=
  (Quiet.continuations (m := 0) (σ := []) v (fun _ => Quiet.parseExpr v _) precedence lhs).onward s

/-! #### Operands by their first token -/

section FirstToken

variable {e : ExprParser}

theorem Parser.operand_await (v : Version) (hk : s.cursor.kind = .keyword .await) :
    Parser.operand v e s
      = unary e .await .await s.cursor.peek.span (s.move Cursor.advance) := by
  have hpeek : s.cursor.peek.kind = .keyword .await := hk
  have hident : identifier? s.cursor.peek = none := by rw [identifier?, hpeek]
  have hends : s.cursor.peek.kind.endsOperand = false := by rw [hpeek]; rfl
  rw [Parser.operand, Sim.peek_bind]
  simp only [hident, hends, Bool.false_eq_true, if_false]
  show Parser.operandAfter v e s.cursor.peek (s.move Cursor.advance) = _
  rw [Parser.operandAfter, hpeek]

theorem Parser.operand_name (hk : u.cursor.kind = .identifier)
    (h : u.cursor.atSoftAwait v = false) :
    Parser.operand v e u
      = (.name ⟨u.cursor.peek.text, u.cursor.peek.span⟩, u.move Cursor.advance) := by
  have hpeek : u.cursor.peek.kind = .identifier := hk
  have hident : identifier? u.cursor.peek = some ⟨u.cursor.peek.text, u.cursor.peek.span⟩ := by
    rw [identifier?, hpeek]
  rw [Parser.operand, Sim.peek_bind]
  simp only [hident]
  rw [Sim.look_bind, h]
  rfl

/-- Where no continuation comes next an operand is all of the expression. -/
theorem Parser.continuationStep_none (v : Version) (precedence : Precedence) (lhs : Expr)
    (h : s.cursor.continuation? = none) :
    continuationStep v e precedence lhs s = (.finished lhs, s) := by
  rw [continuationStep, Sim.look_bind, h]
  rfl

end FirstToken

namespace Leads

/-- Where no operand begins this is reported. -/
theorem operandAfter_missing (v : Version) (e : ExprParser) {token : Token}
    (hk : token.kind.startsExpression = false) {D : ParserState → Prop} :
    Leads D (fun _ => Nowhere) (Parser.operandAfter v e token) := by
  unfold Parser.operandAfter
  split
  all_goals first
    | (rename_i hkind; rw [hkind] at hk; cases hk; done)
    | exact report_bind fun s => .refl s

theorem operand_missing (v : Version) (e : ExprParser) :
    Leads (fun s => s.cursor.kind.startsExpression = false) (fun _ => Nowhere)
      (Parser.operand v e) := by
  unfold Parser.operand
  refine look_bind fun token => ?_
  have hstarts : ∀ s : ParserState, s.cursor.kind.startsExpression = false ∧ s.cursor.peek = token →
      token.kind.startsExpression = false := fun s hs => hs.2 ▸ hs.1
  split
  · rename_i ident hident
    intro s hs
    have hkind := hstarts s hs
    rcases kind_of_identifier? (Option.isSome_of_eq_some hident) with hk | hk | hk
    all_goals
      rw [hk] at hkind
      cases hkind
  · refine .ite (fun _ => expected_bind fun s => .refl s) fun _ s hs => ?_
    exact operandAfter_missing v e (hstarts s hs) (D := fun _ => True) _ trivial

theorem parseExpr_missing (v : Version) (precedence : Precedence) :
    Leads (fun s => s.cursor.kind.startsExpression = false) (fun _ => Nowhere)
      (Parser.parseExpr v precedence) := by
  rw [parseExpr_eq]
  exact (operand_missing v _).bind_nowhere fun lhs s => .continuations v precedence lhs s

theorem unary_missing (v : Version) (op : UnaryOp) (precedence : Precedence) (start : Span) :
    Leads (fun s => s.cursor.kind.startsExpression = false) (fun _ => Nowhere)
      (unary (Parser.parseExpr v) op precedence start) :=
  (parseExpr_missing v precedence).bind_nowhere fun _ s => .refl s

/-- Behind a reserved `await` an operand has to begin. -/
theorem parseExpr_await (v : Version) (precedence : Precedence) :
    Leads (fun s => s.cursor.kind = .keyword .await ∧ (s.cursor.kindAt 1).startsExpression = false)
      (fun _ => Nowhere) (Parser.parseExpr v precedence) := by
  rw [parseExpr_eq]
  refine Leads.bind_nowhere ?_ fun lhs s => .continuations v precedence lhs s
  rintro s ⟨hk, hnext⟩
  rw [operand_await v hk]
  refine unary_missing v .await .await s.cursor.peek.span _ ?_
  show s.cursor.advance.kind.startsExpression = false
  rw [Cursor.kind_advance, hnext]

end Leads

/-- A name before the `for` of a comprehension is an expression of its own. -/
theorem Parser.parseExpr_name (v : Version) (precedence : Precedence)
    (hk : u.cursor.kind = .identifier) (hfor : u.cursor.kindAt 1 = .keyword .for) :
    Parser.parseExpr v precedence u
      = (.name ⟨u.cursor.peek.text, u.cursor.peek.span⟩, u.move Cursor.advance) := by
  have hawait : u.cursor.atSoftAwait v = false := by
    rw [Cursor.atSoftAwait, hfor]
    exact Bool.and_false _
  have hnone : (u.move Cursor.advance).cursor.continuation? = none := by
    rw [ParserState.move, Cursor.continuation?, Cursor.kind_advance, hfor]
    rfl
  rw [parseExpr_eq]
  show Parser.continuations v _ precedence (Parser.operand v _ u).1 (Parser.operand v _ u).2 = _
  rw [operand_name hk hawait, Parser.continuations, loop_eq,
    continuationStep_none v precedence _ hnone]

/-! ### Before an asynchronous comprehension -/

/-- Both expressions begin at the same place. -/
def SameStart (a b : Expr) : Prop := a.span.start = b.span.start

/-- Expressions of fewer than `m` tokens end at the same place, or before an asynchronous
    comprehension. -/
abbrev ExprsEnd (source : String) (m : Nat) (v : Version) : Prop :=
  ∀ precedence, Ends source m SameStart (Parser.parseExpr .v37 precedence)
    (Parser.parseExpr v precedence)

namespace Softer

variable (h : Softer source m s u)

include h

/-- Where `async` is reserved in one run, it is a name in the other. -/
theorem kind_of_atAsync (hasync : AtAsync s) : u.cursor.kind = .identifier := by
  rw [h.cursor_eq, Cursor.kind_soften, hasync]
  rfl

theorem kindAt_one_for (hfor : s.cursor.kindAt 1 = .keyword .for) :
    u.cursor.kindAt 1 = .keyword .for := by
  rw [h.cursor_eq, Cursor.kindAt_soften, hfor]
  rfl

theorem waiting (hasync : AtAsync s) (hfor : s.cursor.kindAt 1 = .keyword .for) :
    Waiting source m s (u.move Cursor.advance) :=
  ⟨hasync, hfor, h.advance⟩

end Softer

namespace Ends

variable {α β : Type} {I : Rel} {R : α → α → Prop} {S : β → β → Prop} {q p : Parser α}

theorem bind_pure (h : Mirrors (fun _ => Lost) I (End source m R) q p) {φ : α → β}
    (hφ : ∀ a b, R a b → S (φ a) (φ b)) :
    Mirrors (fun _ => Lost) I (End source m S) (q >>= fun a => pure (φ a))
      (p >>= fun b => pure (φ b)) := by
  refine Ends.bind h (fun a => .pure fun s u hs => ?_) (fun a b s u hR hs _ => ?_) fun a => ?_
  · exact .inl ⟨rfl, hs⟩
  · exact .inr (.inr ⟨hφ a b hR, hs⟩)
  · exact .pure fun _ hs => hs

/-- What begins at a known place ends where the last token has been read. -/
theorem bind_spanFrom (h : Mirrors (fun _ => Lost) I (End source m R) q p) (start : Span)
    {φ : α → Span → Expr} (hφ : ∀ a span, (φ a span).span = span) :
    Mirrors (fun _ => Lost) I (End source m SameStart)
      (q >>= fun a => spanFrom start >>= fun span => pure (φ a span))
      (p >>= fun a => spanFrom start >>= fun span => pure (φ a span)) := by
  refine Ends.bind h (fun a => .spanFrom_bind start fun span => .pure fun s u hs => ?_)
    (fun a b s u _ hs _ => .inr (.inr ⟨?_, hs⟩)) fun a => .spanFrom_bind fun _ => ?_
  · exact .inl ⟨rfl, hs⟩
  · show (φ a (start.merge s.cursor.lastSpan)).span.start
      = (φ b (start.merge u.cursor.lastSpan)).span.start
    rw [hφ, hφ, Span.merge_start, Span.merge_start]
  · exact .pure fun _ hs => hs

/-- The operand of a production that may be missing. -/
theorem discard (h : Ends source m R q p) :
    Ends source m (fun _ _ => True) (Functor.discard q) (Functor.discard p) :=
  bind_pure h (φ := fun _ => PUnit.unit) fun _ _ _ => trivial

/-- Where `async` is next a production stops under 3.7, and the other one reads a name. -/
theorem of_atAsync (a : α) (hp : ∀ u : ParserState, u.cursor.kind = .identifier →
      u.cursor.kindAt 1 = .keyword .for → ∃ b, R a b ∧ p u = (b, u.move Cursor.advance)) :
    Mirrors (fun _ => Lost) (fun s u => Softer source m s u ∧ AtAsync s) (End source m R)
      (pure a) p where
  onward s := .refl s
  run s u hs _ := by
    by_cases hfor : s.cursor.kindAt 1 = .keyword .for
    · obtain ⟨b, hR, hb⟩ := hp u (hs.1.kind_of_atAsync hs.2) (hs.1.kindAt_one_for hfor)
      rw [hb]
      exact .inr (.inr ⟨hR, hs.1.waiting hs.2 hfor⟩)
    · exact .inl ⟨hs.2, hfor⟩

/-! ### Lists of expressions -/

theorem starred (he : ExprsEnd source m v) (star : Token) :
    Ends source m SameStart (Parser.starred (Parser.parseExpr .v37) star)
      (Parser.starred (Parser.parseExpr v) star) := by
  unfold Parser.starred
  exact bind_pure (he _) fun _ _ _ => rfl

theorem starOrExpr (he : ExprsEnd source m v) :
    Ends source m SameStart (Parser.starOrExpr (Parser.parseExpr .v37))
      (Parser.starOrExpr (Parser.parseExpr v)) := by
  unfold Parser.starOrExpr
  refine .peek_cases (fun token _ => .ite (fun _ => ?_) fun _ => he _) fun token hword => ?_
  · exact .advance_bind (starred he token)
  · -- Neither of the two words is a star, whatever kind it has.
    have hstar : (token.kind == .operator .star) = false := by
      rcases hword with hk | hk <;> rw [hk] <;> rfl
    have hstar' : (token.soften.kind == .operator .star) = false := by
      rcases hword with hk | hk <;> rw [Token.soften_kind, hk] <;> rfl
    rw [hstar, hstar']
    exact he _

end Ends

/-- A name before the `for` of a comprehension is not spread. -/
theorem Parser.starOrExpr_name (v : Version) (hk : u.cursor.kind = .identifier)
    (hfor : u.cursor.kindAt 1 = .keyword .for) :
    Parser.starOrExpr (Parser.parseExpr v) u
      = (.name ⟨u.cursor.peek.text, u.cursor.peek.span⟩, u.move Cursor.advance) := by
  have hstar : (u.cursor.peek.kind == .operator .star) = false := by
    rw [← Cursor.kind_eq, hk]
    rfl
  rw [Parser.starOrExpr, Sim.peek_bind, hstar]
  exact parseExpr_name v _ hk hfor

/-- It is a list of its own. -/
theorem Parser.starExprs_name (v : Version) (hk : u.cursor.kind = .identifier)
    (hfor : u.cursor.kindAt 1 = .keyword .for) :
    Parser.starExprs (Parser.parseExpr v) u
      = (.name ⟨u.cursor.peek.text, u.cursor.peek.span⟩, u.move Cursor.advance) := by
  have hcomma : (u.move Cursor.advance).cursor.kind ≠ .operator .comma := by
    rw [ParserState.move, Cursor.kind_advance, hfor]
    exact TokenKind.noConfusion
  rw [Parser.starExprs, bind_of_run (starOrExpr_name v hk hfor), at?_bind_of_ne hcomma]
  rfl

theorem Parser.starExprStep_done {e : ExprParser} (items : List Expr)
    (hk : s.cursor.kind ≠ .operator .comma) :
    Parser.starExprStep e items s = (.finished items, s) := by
  rw [Parser.starExprStep, eats_bind_of_ne hk]
  rfl

namespace Ends

/-- What comes before an asynchronous comprehension ends a list. -/
theorem comesTo_starExprs {e : ExprParser} (items : List Expr)
    (hk : s.cursor.kind ≠ .operator .comma) :
    ComesTo id (Parser.starExprStep e) s items (.again items) :=
  ⟨rfl, starExprStep_done items hk⟩

theorem starExprStep (he : ExprsEnd source m v) (items : List Expr) :
    Mirrors (fun _ => Lost) (Softer source m)
      (StepEnd source m (fun _ _ => True) id (Parser.starExprStep (Parser.parseExpr .v37))
        (Parser.starExprStep (Parser.parseExpr v)))
      (Parser.starExprStep (Parser.parseExpr .v37) items)
      (Parser.starExprStep (Parser.parseExpr v) items) := by
  rw [Parser.starExprStep, Parser.starExprStep]
  have hcomma : ∀ {s u}, Waiting source m s u →
      s.cursor.kind ≠ .operator .comma ∧ u.cursor.kind ≠ .operator .comma :=
    fun hs => hs.ne rfl TokenKind.noConfusion
  have hdone : ∀ items : List Expr, Mirrors (fun _ => Lost) (Softer source m)
      (StepEnd source m (fun _ _ => True) id (Parser.starExprStep (Parser.parseExpr .v37))
        (Parser.starExprStep (Parser.parseExpr v)))
      (pure (.finished items)) (pure (.finished items)) :=
    fun items => .pure fun s u hs => .inl ⟨rfl, hs⟩
  have hitem : Mirrors (fun _ => Lost) (Softer source m)
      (StepEnd source m (fun _ _ => True) id (Parser.starExprStep (Parser.parseExpr .v37))
        (Parser.starExprStep (Parser.parseExpr v)))
      (Parser.starOrExpr (Parser.parseExpr .v37) >>= fun item => pure (.again (items ++ [item])))
      (Parser.starOrExpr (Parser.parseExpr v) >>= fun item => pure (.again (items ++ [item]))) := by
    refine Ends.bind (starOrExpr he) (fun a => .pure fun s u hs => .inl ⟨rfl, hs⟩)
      (fun a b s u _ hs _ => .inr (.inr ⟨hs, items ++ [a], items ++ [b], trivial, ?_, ?_⟩))
      fun _ => .pure fun _ hs => hs
    · exact comesTo_starExprs _ (hcomma hs).1
    · exact comesTo_starExprs _ (hcomma hs).2
  refine .eats_bind rfl ?_ (hdone items)
  refine .kind_bind (fun kind _ => ?_) fun kind hword => ?_
  · refine .ite (fun _ => hitem.pre fun _ _ hs => hs.1) fun _ => ?_
    exact (hdone items).pre fun _ _ hs => hs.1
  · rcases hword with rfl | rfl
    -- Behind a comma `async` begins no expression under 3.7. The other loop reads a name.
    · refine ⟨fun s => .refl s, fun s u hs _ => ?_⟩
      by_cases hfor : s.cursor.kindAt 1 = .keyword .for
      · have hname := starOrExpr_name v (hs.1.kind_of_atAsync hs.2) (hs.1.kindAt_one_for hfor)
        have hwaiting := hs.1.waiting hs.2 hfor
        refine .inr (.inr ?_)
        show Waiting source m s (Parser.starOrExpr (Parser.parseExpr v) u).2 ∧ ∃ b b', True
          ∧ ComesTo id (Parser.starExprStep (Parser.parseExpr .v37)) s b (.finished items)
          ∧ ComesTo id (Parser.starExprStep (Parser.parseExpr v))
            (Parser.starOrExpr (Parser.parseExpr v) u).2 b'
            (.again (items ++ [(Parser.starOrExpr (Parser.parseExpr v) u).1]))
        rw [hname]
        exact ⟨hwaiting, _, _, trivial, rfl, comesTo_starExprs _ (hcomma hwaiting).2⟩
      · exact .inl ⟨hs.2, hfor⟩
    · exact hitem.pre fun _ _ hs => hs.1

theorem moreStarExprs (he : ExprsEnd source m v) (items : List Expr) :
    Ends source m (fun _ _ => True) (Parser.moreStarExprs (Parser.parseExpr .v37) items)
      (Parser.moreStarExprs (Parser.parseExpr v) items) := by
  unfold Parser.moreStarExprs
  refine Mirrors.loop_ends (X := fun _ => Lost) (starExprStep he) (fun items s hs _ => ?_)
    (fun _ _ hs => hs) items
  rw [starExprStep_done items (hs.1.ne rfl)]
  exact hs

theorem starExprs (he : ExprsEnd source m v) :
    Ends source m SameStart (Parser.starExprs (Parser.parseExpr .v37))
      (Parser.starExprs (Parser.parseExpr v)) := by
  unfold Parser.starExprs
  refine Ends.bind (starOrExpr he) (fun first => ?_) (fun first first' s u hstart hs _ => ?_)
    fun first => ?_
  · refine .at?_bind rfl ?_ (.pure fun _ _ hs => .inl ⟨rfl, hs⟩)
    exact bind_spanFrom (moreStarExprs he [first]) _ fun _ _ => rfl
  · obtain ⟨hs₁, hs₂⟩ := hs.ne (k := .operator .comma) rfl TokenKind.noConfusion
    rw [at?_bind_of_ne hs₁, at?_bind_of_ne hs₂]
    exact .inr (.inr ⟨hstart, hs⟩)
  · refine .at?_bind (fun s hs => hs.1.ne rfl) ?_
    exact .pure fun _ hs => hs

end Ends

end PyAtlas
