import PyAtlas.Proofs.Syntax.Simulation
import PyAtlas.Syntax.ParseExpr

/-!
# Expressions are read in step

Every production for expressions runs in step on a whole text and on a part of it. Inside a
line nothing but the tokens up to its end is looked at, and no production leaves the line.

## Key results
- `Sim.exprWith`: the production for whole expressions, given the one for the expressions in it.
- `Sim.parseExpr`: an expression, wherever a token is left.
-/

namespace PyAtlas

namespace Sim

open PyAtlas.Parser

variable {σ : Seam} {E : Escape σ} {k : Nat} {e e' : ExprParser}

/-- Productions that stay inside the line. -/
abbrev InLine (E : Escape σ) (k : Nat) {α β : Type} (φ : α → β) (p : Parser β)
    (q : Parser α) : Prop :=
  Sim E (Live σ k) (fun _ => Live σ k) φ p q

/-- The parsers of the expressions in a production stay inside the line. -/
abbrev InLineExprs (E : Escape σ) (k : Nat) (e e' : ExprParser) : Prop :=
  ∀ precedence, InLine E k (Expr.shift σ.offset) (e precedence) (e' precedence)

theorem ahead_of_live {s t : ParserState} (h : Live σ k s t) : Meets σ .ahead k s t :=
  h.1.ahead

/-! ### Lists of expressions -/

theorem starred (he : InLineExprs E k e e') (star : Token) :
    InLine E k (Expr.shift σ.offset) (Parser.starred e (star.shift σ.offset))
      (Parser.starred e' star) := by
  unfold Parser.starred
  refine (he _).bind fun value => ?_
  refine .pure ?_ fun _ _ h => h
  simp [Expr.shift, Span.shift_merge]

/-- Where an expression has been tried. If none of its tokens has been read, it is missing, and
    what comes next is left alone. -/
def Tried (σ : Seam) (k : Nat) : Rel := fun s t =>
  Meets σ .lined k s t ∧ (t.cursor.kind.endsOperand = false → t.begun = true)

theorem tried_of_live {s t : ParserState} (h : Live σ k s t) : Tried σ k s t :=
  ⟨h.1, fun _ => h.2⟩

/-- What may hold where an expression is read, and what holds after it. -/
structure AroundExpr (σ : Seam) (k : Nat) (I J : Rel) : Prop where
  ahead : ∀ s t, I s t → Meets σ .ahead k s t
  tried : ∀ s t, J s t → Tried σ k s t
  live : ∀ s t, Live σ k s t → J s t

theorem aroundExpr_live : AroundExpr σ k (Live σ k) (Live σ k) :=
  ⟨fun _ _ => ahead_of_live, fun _ _ => tried_of_live, fun _ _ h => h⟩

theorem aroundExpr_ahead : AroundExpr σ k (Meets σ .ahead k) (Tried σ k) :=
  ⟨fun _ _ h => h, fun _ _ h => h, fun _ _ => tried_of_live⟩

variable {I J : Rel}

theorem starOrExpr_around (hIJ : AroundExpr σ k I J) (he : InLineExprs E k e e')
    (hfirst : Sim E I (fun _ => J) (Expr.shift σ.offset) (e .initial) (e' .initial)) :
    Sim E I (fun _ => J) (Expr.shift σ.offset) (Parser.starOrExpr e) (Parser.starOrExpr e') := by
  unfold Parser.starOrExpr
  refine (peek hIJ.ahead).bind fun token => ?_
  refine .ite (fun hstar => ?_) fun _ => ?_
  · have hplain : token.kind.isLayout = false := by
      rw [show token.kind = .operator .star from eq_of_beq hstar]
      rfl
    refine (advance_peeked hplain hIJ.ahead).bind fun _ => ?_
    exact (starred he token).post fun _ => hIJ.live
  · exact hfirst.pre fun _ _ h => h.1

theorem starOrExpr (he : InLineExprs E k e e') :
    InLine E k (Expr.shift σ.offset) (Parser.starOrExpr e) (Parser.starOrExpr e') :=
  starOrExpr_around aroundExpr_live he (he _)

/-- The rule for loops inside a line. -/
theorem loop_inLine {α β γ δ : Type} (φ : α → β) {ψ : γ → δ} {giveUp : β → δ} {giveUp' : α → γ}
    {step : β → Parser (LoopStep β δ)} {step' : α → Parser (LoopStep α γ)}
    (hstep : ∀ a, InLine E k (mapStep φ ψ) (step (φ a)) (step' a))
    (hgive : ∀ a, giveUp (φ a) = ψ (giveUp' a)) (a : α) :
    InLine E k ψ (Parser.loop giveUp step (φ a)) (Parser.loop giveUp' step' a) :=
  loop (I := fun _ => Live σ k)
    (fun a => (hstep a).post fun r _ _ h => by cases r <;> exact h)
    (fun _ _ _ h => ⟨k, h.1.anywhere⟩) hgive (fun _ _ _ h => h) a

/-- The items of a list, one of which is added. -/
theorem map_concat {α β : Type} (f : α → β) (items : List α) (item : α) :
    items.map f ++ [f item] = (items ++ [item]).map f := by
  rw [List.map_append, List.map_singleton]

theorem moreStarExprs (he : InLineExprs E k e e') (items : List Expr) :
    InLine E k (List.map (Expr.shift σ.offset))
      (Parser.moreStarExprs e (items.map (Expr.shift σ.offset)))
      (Parser.moreStarExprs e' items) := by
  unfold Parser.moreStarExprs
  refine loop_inLine (List.map (Expr.shift σ.offset)) (fun items => ?_) (by intro _; rfl) items
  refine cond (eats _ rfl fun _ _ => ahead_of_live) ?_ ?_
  · refine (kind fun _ _ => ahead_of_live).bind fun next => ?_
    refine .ite (fun _ => ?_) fun _ => .pure rfl fun _ _ h => h.1
    refine ((starOrExpr he).pre fun _ _ h => h.1).bind fun item => ?_
    refine .pure ?_ fun _ _ h => h
    rw [map_concat, mapStep]
  · exact .pure rfl fun _ _ h => h.1

theorem starExprs_around (hIJ : AroundExpr σ k I J) (he : InLineExprs E k e e')
    (hfirst : Sim E I (fun _ => J) (Expr.shift σ.offset) (e .initial) (e' .initial)) :
    Sim E I (fun _ => J) (Expr.shift σ.offset) (Parser.starExprs e) (Parser.starExprs e') := by
  unfold Parser.starExprs
  refine (starOrExpr_around hIJ he hfirst).bind fun first => ?_
  refine cond (at? _ fun s t h => (hIJ.tried s t h).1.ahead) ?_ ?_
  · -- A comma is no token that is left alone, so the item before it has been read.
    have hlive : ∀ s t, J s t ∧ t.cursor.kind = .operator .comma → Live σ k s t := by
      rintro s t ⟨hJ, hcomma⟩
      exact ⟨(hIJ.tried s t hJ).1, (hIJ.tried s t hJ).2 (by rw [hcomma]; rfl)⟩
    refine ((moreStarExprs he [first]).pre hlive).bind fun items => ?_
    refine (spanFrom (Expr.span_shift _ _) fun _ _ h => h).bind fun span => ?_
    refine .pure ?_ fun s t h => hIJ.live s t h
    rw [Expr.shift, shiftExprs_eq_map]
  · exact .pure rfl fun _ _ h => h.1

theorem starExprs (he : InLineExprs E k e e') :
    InLine E k (Expr.shift σ.offset) (Parser.starExprs e) (Parser.starExprs e') :=
  starExprs_around aroundExpr_live he (he _)

/-! ### Brackets -/

/-- After a fault a line of the part at the back is gone on with. -/
theorem live_of_lost {s t : ParserState} (h : Begun (Meets σ .lost k) s t) : Live σ k s t :=
  ⟨h.1.of_lost .lined k, h.2⟩

/-- Something is missing inside brackets. This is reported, and the rest of them is passed over. -/
theorem expected_closing {α β : Type} {φ : α → β} {expectation : Expectation} {token : Token}
    {closing : TokenKind} {a : α} {b : β} (hval : b = φ a) (hI : ∀ s t, I s t → Live σ k s t) :
    Sim E I (fun _ => Live σ k) φ
      (do
        Parser.expected expectation (token.shift σ.offset)
        Parser.skipToClosing
        Functor.discard (Parser.eat closing)
        Pure.pure b)
      (do
        Parser.expected expectation token
        Parser.skipToClosing
        Functor.discard (Parser.eat closing)
        Pure.pure a) := by
  refine ((expected rfl fun _ _ h => h).begun.pre hI).bind fun _ => ?_
  refine (skipToClosing_lost).begun.bind fun _ => ?_
  refine (eat_lost _).begun.discard.bind fun _ => ?_
  exact .pure hval fun _ _ => live_of_lost

theorem expectClosing (closing : Operator) :
    InLine E k id (Parser.expectClosing closing) (Parser.expectClosing closing) := by
  unfold Parser.expectClosing
  refine (peek fun _ _ => ahead_of_live).bind fun token => ?_
  refine cond (eats _ rfl fun _ _ h => ahead_of_live h.1) ?_ ?_
  · exact .pure rfl fun _ _ h => h
  · refine ((expected rfl fun _ _ h => h).begun.pre fun _ _ h => h.1.1).bind fun _ => ?_
    refine (skipToClosing_lost).begun.bind fun _ => ?_
    exact (eat_lost _).begun.discard.post fun _ _ _ => live_of_lost

theorem comprehension (start : Span) (closing : Operator) :
    InLine E k (Expr.shift σ.offset) (Parser.comprehension (start.shift σ.offset) closing)
      (Parser.comprehension start closing) := by
  unfold Parser.comprehension
  refine (skipToClosing).begun.bind fun _ => ?_
  refine (expectClosing closing).bind fun _ => ?_
  refine (spanFrom rfl fun _ _ h => h).bind fun span => ?_
  exact .pure rfl fun _ _ h => h

theorem moreItems (he : InLineExprs E k e e') (closing : Operator) (items : List Expr) :
    InLine E k (List.map (Expr.shift σ.offset))
      (Parser.moreItems e closing (items.map (Expr.shift σ.offset)))
      (Parser.moreItems e' closing items) := by
  unfold Parser.moreItems
  refine loop_inLine (List.map (Expr.shift σ.offset)) (fun items => ?_) (by intro _; rfl) items
  refine cond (eats _ rfl fun _ _ => ahead_of_live) ?_ ?_
  · refine cond (at? _ fun _ _ => ahead_of_live) ?_ ?_
    · exact .pure rfl fun _ _ h => h.1
    · refine ((starOrExpr he).pre fun _ _ h => h.1).bind fun item => ?_
      refine .pure ?_ fun _ _ h => h
      rw [map_concat, mapStep]
  · exact .pure rfl fun _ _ h => h.1

/-- An expression of which only the place is kept. -/
theorem otherFrom (start : Span) :
    InLine E k (Expr.shift σ.offset)
      (do Pure.pure (.other (← Parser.spanFrom (start.shift σ.offset))))
      (do Pure.pure (.other (← Parser.spanFrom start))) := by
  refine (spanFrom rfl fun _ _ h => h).bind fun span => ?_
  exact .pure rfl fun _ _ h => h

theorem yieldExpr (he : InLineExprs E k e e') (start : Span) :
    InLine E k (Expr.shift σ.offset) (Parser.yieldExpr e (start.shift σ.offset))
      (Parser.yieldExpr e' start) := by
  unfold Parser.yieldExpr
  refine cond (eats _ rfl fun _ _ => ahead_of_live) ?_ ?_
  · exact (he _).discard.bind fun _ => otherFrom start
  · refine (kind fun _ _ h => ahead_of_live h.1).bind fun next => ?_
    refine .ite (fun _ => ?_) fun _ => (otherFrom start).pre fun _ _ h => h.1.1
    exact ((starExprs he).discard.pre fun _ _ h => h.1.1).bind fun _ => otherFrom start

theorem parenthesized (v : Version) (he : InLineExprs E k e e') (start : Span) :
    InLine E k (Expr.shift σ.offset) (Parser.parenthesized v e (start.shift σ.offset))
      (Parser.parenthesized v e' start) := by
  unfold Parser.parenthesized
  refine cond (eats _ rfl fun _ _ => ahead_of_live) ?_ ?_
  · refine (spanFrom rfl fun _ _ h => h).bind fun span => ?_
    exact .pure rfl fun _ _ h => h
  · refine (eat _ rfl fun _ _ h => ahead_of_live h.1).bind fun word => ?_
    cases word with
    | some word =>
      refine ((yieldExpr he word.span).discard).bind fun _ => ?_
      refine (expectClosing _).bind fun _ => ?_
      refine (spanFrom rfl fun _ _ h => h).bind fun span => ?_
      exact .pure rfl fun _ _ h => h
    | none =>
      refine ((starOrExpr he).pre fun _ _ h => h.1.1).bind fun first => ?_
      refine cond (ask fun _ _ h => (ahead_of_live h).atComprehension v) ?_ ?_
      · exact (comprehension start _).pre fun _ _ h => h.1
      · refine cond (at? _ fun _ _ h => ahead_of_live h.1) ?_ ?_
        · refine ((moreItems he _ [first]).pre fun _ _ h => h.1.1).bind fun items => ?_
          refine (expectClosing _).bind fun _ => ?_
          refine (spanFrom rfl fun _ _ h => h).bind fun span => ?_
          refine .pure ?_ fun _ _ h => h
          rw [Expr.shift, shiftExprs_eq_map]
        · refine ((expectClosing _).pre fun _ _ h => h.1.1).bind fun _ => ?_
          exact .pure rfl fun _ _ h => h

theorem listDisplay (v : Version) (he : InLineExprs E k e e') (start : Span) :
    InLine E k (Expr.shift σ.offset) (Parser.listDisplay v e (start.shift σ.offset))
      (Parser.listDisplay v e' start) := by
  unfold Parser.listDisplay
  refine cond (eats _ rfl fun _ _ => ahead_of_live) ?_ ?_
  · refine (spanFrom rfl fun _ _ h => h).bind fun span => ?_
    exact .pure rfl fun _ _ h => h
  · refine ((starOrExpr he).pre fun _ _ h => h.1).bind fun first => ?_
    refine cond (ask fun _ _ h => (ahead_of_live h).atComprehension v) ?_ ?_
    · exact (comprehension start _).pre fun _ _ h => h.1
    · refine ((moreItems he _ [first]).pre fun _ _ h => h.1).bind fun items => ?_
      refine (expectClosing _).bind fun _ => ?_
      refine (spanFrom rfl fun _ _ h => h).bind fun span => ?_
      refine .pure ?_ fun _ _ h => h
      rw [Expr.shift, shiftExprs_eq_map]

theorem dictEntry (he : InLineExprs E k e e') :
    InLine E k (Option.map (shiftEntry σ.offset)) (Parser.dictEntry e)
      (Parser.dictEntry e') := by
  unfold Parser.dictEntry
  refine (peek fun _ _ => ahead_of_live).bind fun start => ?_
  refine cond (eats _ rfl fun _ _ h => ahead_of_live h.1) ?_ ?_
  · refine (he _).bind fun value => ?_
    exact .pure rfl fun _ _ h => h
  · refine ((he _).pre fun _ _ h => h.1.1).bind fun key => ?_
    refine (peek fun _ _ => ahead_of_live).bind fun token => ?_
    refine cond (eats _ rfl fun _ _ h => ahead_of_live h.1) ?_ ?_
    · refine (he _).bind fun value => ?_
      exact .pure rfl fun _ _ h => h
    · exact expected_closing rfl fun _ _ h => h.1.1

theorem dictEntries (v : Version) (he : InLineExprs E k e e') :
    InLine E k (Option.map (List.map (shiftEntry σ.offset))) (Parser.dictEntries v e)
      (Parser.dictEntries v e') := by
  unfold Parser.dictEntries Parser.moreEntries
  refine loop_inLine (List.map (shiftEntry σ.offset)) (fun items => ?_) (by intro _; rfl) []
  refine (dictEntry he).bind fun entry => ?_
  cases entry with
  | none => exact .pure rfl fun _ _ h => h
  | some entry =>
    simp only [Option.map_some, map_concat, List.length_map]
    generalize items ++ [entry] = items
    -- A `for` behind the first entry makes a comprehension of the display.
    refine (inspect fun _ _ h => (ahead_of_live h).atComprehension v).bind fun begins => ?_
    refine .ite (fun _ => .pure rfl fun _ _ h => h.1) fun _ => ?_
    refine cond (eats _ rfl fun _ _ h => ahead_of_live h.1) ?_ ?_
    · refine cond (at? _ fun _ _ => ahead_of_live) ?_ ?_
      · refine ((expectClosing _).pre fun _ _ h => h.1).bind fun _ => ?_
        exact .pure rfl fun _ _ h => h
      · exact .pure rfl fun _ _ h => h.1
    · refine ((expectClosing _).pre fun _ _ h => h.1.1).bind fun _ => ?_
      exact .pure rfl fun _ _ h => h

theorem curlyDisplay (v : Version) (he : InLineExprs E k e e') (start : Span) :
    InLine E k (Expr.shift σ.offset) (Parser.curlyDisplay v e (start.shift σ.offset))
      (Parser.curlyDisplay v e' start) := by
  unfold Parser.curlyDisplay
  refine cond (eats _ rfl fun _ _ => ahead_of_live) ?_ ?_
  · refine (spanFrom rfl fun _ _ h => h).bind fun span => ?_
    exact .pure rfl fun _ _ h => h
  · refine cond (ask fun _ _ h => h.1.1.atDictEntry) ?_ ?_
    · refine ((dictEntries v he).pre fun _ _ h => h.1.1).bind fun items => ?_
      cases items with
      | some items =>
        refine (spanFrom rfl fun _ _ h => h).bind fun span => ?_
        refine .pure ?_ fun _ _ h => h
        rw [Expr.shift, shiftEntries_eq_map]
      | none => exact comprehension start _
    · refine ((starOrExpr he).pre fun _ _ h => h.1.1).bind fun first => ?_
      refine cond (ask fun _ _ h => (ahead_of_live h).atComprehension v) ?_ ?_
      · exact (comprehension start _).pre fun _ _ h => h.1
      · refine ((moreItems he _ [first]).pre fun _ _ h => h.1).bind fun items => ?_
        refine (expectClosing _).bind fun _ => ?_
        refine (spanFrom rfl fun _ _ h => h).bind fun span => ?_
        refine .pure ?_ fun _ _ h => h
        rw [Expr.shift, shiftExprs_eq_map]

/-! ### Subscripts -/

theorem sliceBounds (he : InLineExprs E k e e') :
    InLine E k id (Parser.sliceBounds e) (Parser.sliceBounds e') := by
  unfold Parser.sliceBounds
  refine loop_inLine id (fun _ => ?_) (by intro _; rfl) ()
  refine cond (eats _ rfl fun _ _ => ahead_of_live) ?_ ?_
  · refine (kind fun _ _ => ahead_of_live).bind fun next => ?_
    simp only [id_eq]
    split
    · exact .pure rfl fun _ _ h => h.1
    · exact .pure rfl fun _ _ h => h.1
    · exact .pure rfl fun _ _ h => h.1
    · refine ((he _).discard.pre fun _ _ h => h.1).bind fun _ => ?_
      exact .pure rfl fun _ _ h => h
  · exact .pure rfl fun _ _ h => h.1

theorem slice (he : InLineExprs E k e e') (start : Span) :
    InLine E k (Expr.shift σ.offset) (Parser.slice e (start.shift σ.offset))
      (Parser.slice e' start) := by
  unfold Parser.slice
  refine (sliceBounds he).bind fun _ => ?_
  refine (spanFrom rfl fun _ _ h => h).bind fun span => ?_
  exact .pure rfl fun _ _ h => h

theorem subscriptItem (he : InLineExprs E k e e') :
    InLine E k (Expr.shift σ.offset) (Parser.subscriptItem e) (Parser.subscriptItem e') := by
  unfold Parser.subscriptItem
  refine (peek fun _ _ => ahead_of_live).bind fun start => ?_
  refine .ite (fun _ => (slice he start.span).pre fun _ _ h => h.1) fun _ => ?_
  refine ((starOrExpr he).pre fun _ _ h => h.1).bind fun lower => ?_
  refine cond (at? _ fun _ _ => ahead_of_live) ?_ ?_
  · exact (slice he start.span).pre fun _ _ h => h.1
  · exact .pure rfl fun _ _ h => h.1

theorem subscriptItems (he : InLineExprs E k e e') :
    InLine E k (Prod.map (List.map (Expr.shift σ.offset)) id) (Parser.subscriptItems e)
      (Parser.subscriptItems e') := by
  unfold Parser.subscriptItems
  refine loop_inLine (Prod.map (List.map (Expr.shift σ.offset)) id)
    (fun (items, separated) => ?_) (by intro _; rfl)
    ([], false)
  refine (kind fun _ _ => ahead_of_live).bind fun next => ?_
  refine .ite (fun _ => .pure rfl fun _ _ h => h.1) fun _ => ?_
  refine ((subscriptItem he).pre fun _ _ h => h.1).bind fun item => ?_
  refine cond (eats _ rfl fun _ _ => ahead_of_live) ?_ ?_
  · refine .pure ?_ fun _ _ h => h
    simp [mapStep, Prod.map]
  · refine .pure ?_ fun _ _ h => h.1
    simp [mapStep, Prod.map]

theorem subscript (he : InLineExprs E k e e') :
    InLine E k (Expr.shift σ.offset) (Parser.subscript e) (Parser.subscript e') := by
  unfold Parser.subscript
  refine (peek fun _ _ => ahead_of_live).bind fun start => ?_
  refine ((subscriptItems he).pre fun _ _ h => h.1).bind fun (items, separated) => ?_
  refine (expectClosing _).bind fun _ => ?_
  have htuple : ∀ items : List Expr, InLine E k (Expr.shift σ.offset)
      (do Pure.pure (.tuple (items.map (Expr.shift σ.offset))
        (← Parser.spanFrom (start.shift σ.offset).span)))
      (do Pure.pure (.tuple items (← Parser.spanFrom start.span))) := by
    intro items
    refine (spanFrom rfl fun _ _ h => h).bind fun span => ?_
    refine .pure ?_ fun _ _ h => h
    rw [Expr.shift, shiftExprs_eq_map]
  match items, separated with
  | [item], false => exact .pure rfl fun _ _ h => h
  | [item], true => exact htuple [item]
  | [], separated => exact htuple []
  | a :: b :: items, separated => exact htuple (a :: b :: items)

/-! ### Calls -/

theorem positionalArgument (v : Version) (he : InLineExprs E k e e') :
    InLine E k (Argument.shift σ.offset) (Parser.positionalArgument v e)
      (Parser.positionalArgument v e') := by
  unfold Parser.positionalArgument
  refine (he _).bind fun value => ?_
  refine cond (ask fun _ _ h => (ahead_of_live h).atComprehension v) ?_ ?_
  · refine ((skipToClosing).begun.pre fun _ _ h => h.1).bind fun _ => ?_
    refine (spanFrom (Expr.span_shift _ _) fun _ _ h => h).bind fun span => ?_
    exact .pure rfl fun _ _ h => h
  · exact .pure rfl fun _ _ h => h.1

theorem argument (v : Version) (he : InLineExprs E k e e') :
    InLine E k (Argument.shift σ.offset) (Parser.argument v e) (Parser.argument v e') := by
  unfold Parser.argument
  refine (peek fun _ _ => ahead_of_live).bind fun token => ?_
  rw [Token.shift_kind]
  split
  · rename_i hk
    refine (advance_peeked (by rw [hk]; rfl) fun _ _ => ahead_of_live).bind fun _ => ?_
    exact (he _).map (fun _ => rfl) fun _ _ _ h => h
  · rename_i hk
    refine (advance_peeked (by rw [hk]; rfl) fun _ _ => ahead_of_live).bind fun _ => ?_
    exact (he _).map (fun _ => rfl) fun _ _ _ h => h
  · rw [identifier?_shift]
    cases hname : identifier? token with
    | none => exact (positionalArgument v he).pre fun _ _ h => h.1
    | some name =>
      have hplain : ∀ s t, Live σ k s t ∧ t.cursor.peek = token →
          t.cursor.kind.isLayout = false := by
        rintro s t ⟨-, hpeek⟩
        rw [Cursor.kind_eq, hpeek]
        exact isLayout_of_identifier? hname
      refine cond (ask fun s t h => ?_) ?_ ?_
      · rw [Cursor.kindAt, Cursor.kindAt, h.1.1.peekNth_one (hplain s t h), Token.shift_kind]
      -- The equals sign has been seen from behind the name; it is read with it.
      · refine (advance_to (P := fun c => c.kind = .equal)
          (fun s t h => ⟨h.1.1.1, hplain s t h.1⟩) ?_).bind fun _ => ?_
        · rintro s t ⟨-, hequal⟩
          rw [Cursor.kind_advance]
          exact eq_of_beq hequal
        · refine (advance fun s t h => ⟨h.1.1, by rw [h.2]; rfl⟩).bind fun _ => ?_
          exact (he _).map (fun _ => rfl) fun _ _ _ h => h
      · exact (positionalArgument v he).pre fun _ _ h => h.1.1

theorem callArguments (v : Version) (he : InLineExprs E k e e') :
    InLine E k (List.map (Argument.shift σ.offset)) (Parser.callArguments v e)
      (Parser.callArguments v e') := by
  unfold Parser.callArguments Parser.moreArguments
  refine loop_inLine (List.map (Argument.shift σ.offset)) (fun arguments => ?_) (by intro _; rfl) []
  refine (kind fun _ _ => ahead_of_live).bind fun next => ?_
  refine .ite (fun hclosing => ?_) fun _ => ?_
  · refine (advance fun s t h => ⟨h.1.1, ?_⟩).bind fun _ => .pure rfl fun _ _ h => h
    rw [h.2, show next = _ from eq_of_beq hclosing]
    rfl
  · simp only [List.isEmpty_map, id_eq]
    refine .ite (fun hcomma => ?_) fun _ => ?_
    · refine (advance fun s t h => ⟨h.1.1, ?_⟩).bind fun _ => .pure rfl fun _ _ h => h
      rw [h.2, show next = _ from eq_of_beq (Bool.and_eq_true_iff.1 hcomma).1]
      rfl
    · refine ((argument v he).pre fun _ _ h => h.1).bind fun arg => ?_
      refine (peek fun _ _ => ahead_of_live).bind fun token => ?_
      rw [map_concat, Token.shift_kind]
      split
      · exact .pure rfl fun _ _ h => h.1
      · exact .pure rfl fun _ _ h => h.1
      · exact expected_closing rfl fun _ _ h => h.1

/-! ### Operands -/

theorem unary (he : InLineExprs E k e e') (op : UnaryOp) (precedence : Precedence)
    (start : Span) :
    InLine E k (Expr.shift σ.offset) (Parser.unary e op precedence (start.shift σ.offset))
      (Parser.unary e' op precedence start) := by
  unfold Parser.unary
  refine (he _).bind fun operand => ?_
  refine .pure ?_ fun _ _ h => h
  simp [Expr.shift, Span.shift_merge]

theorem lambdaParameters : InLine E k id Parser.lambdaParameters Parser.lambdaParameters := by
  unfold Parser.lambdaParameters
  refine loop_inLine id (fun depth => ?_) (by intro _; rfl) 0
  refine (peek fun _ _ => ahead_of_live).bind fun token => ?_
  -- Where the colon is missing a fault has been found. All other tokens are read as they come.
  have hmissing : ∀ step : LoopStep Nat Bool,
      Sim E (fun s t => Live σ k s t ∧ t.cursor.peek = token) (fun _ => Live σ k) (mapStep id id)
        (do Parser.expected .colon (token.shift σ.offset); Pure.pure step)
        (do Parser.expected .colon token; Pure.pure step) := by
    intro step
    refine ((expected rfl fun _ _ h => h).begun.pre fun _ _ h => h.1).bind fun _ => ?_
    refine .pure ?_ fun _ _ => live_of_lost
    cases step <;> rfl
  have hread : token.kind.isLineEnd = false → ∀ step : LoopStep Nat Bool,
      Sim E (fun s t => Live σ k s t ∧ t.cursor.peek = token) (fun _ => Live σ k)
        (mapStep id id) (do Parser.advance; Pure.pure step)
        (do Parser.advance; Pure.pure step) := by
    intro hline step
    refine (advance_lined hline).bind fun _ => .pure ?_ fun _ _ h => h
    cases step <;> rfl
  rw [Token.shift_kind]
  split
  · exact hmissing _
  · exact hmissing _
  · rename_i op hk
    have hline : token.kind.isLineEnd = false := by rw [hk]; rfl
    refine .ite (fun _ => hread hline _) fun _ => ?_
    refine .ite (fun _ => hread hline _) fun _ => ?_
    refine .ite (fun _ => ?_) fun _ => hread hline _
    exact .ite (fun _ => hmissing _) fun _ => hread hline _
  · rename_i hnewline heof _
    refine hread ?_ _
    revert hnewline heof
    cases token.kind <;> simp [TokenKind.isLineEnd]

theorem lambda (he : InLineExprs E k e e') (start : Span) :
    InLine E k (Expr.shift σ.offset) (Parser.lambda e (start.shift σ.offset))
      (Parser.lambda e' start) := by
  unfold Parser.lambda
  refine (lambdaParameters).bind fun found => ?_
  refine .ite (fun _ => ?_) fun _ => ?_
  · refine (he _).bind fun body => ?_
    refine .pure ?_ fun _ _ h => h
    simp [Expr.shift, Span.shift_merge]
  · refine (spanFrom rfl fun _ _ h => h).bind fun span => ?_
    exact .pure rfl fun _ _ h => h

theorem backquoted (he : InLineExprs E k e e') (start : Span) :
    InLine E k (Expr.shift σ.offset) (Parser.backquoted e (start.shift σ.offset))
      (Parser.backquoted e' start) := by
  unfold Parser.backquoted
  refine (starExprs he).discard.bind fun _ => ?_
  refine (peek fun _ _ => ahead_of_live).bind fun token => ?_
  refine cond_not (eats _ rfl fun _ _ h => ahead_of_live h.1) (otherFrom start) ?_
  refine ((expected rfl fun _ _ h => h).begun.pre fun _ _ h => h.1.1).bind fun _ => ?_
  exact (otherFrom start).pre fun _ _ => live_of_lost

theorem moreStrings (first : Token) :
    InLine E k (Prod.map id (Span.shift σ.offset)) (Parser.moreStrings (first.shift σ.offset))
      (Parser.moreStrings first) := by
  unfold Parser.moreStrings
  refine loop_inLine (Prod.map id (Span.shift σ.offset)) (fun (value, span) => ?_)
    (by intro _; rfl) (_, _)
  refine (peek fun _ _ => ahead_of_live).bind fun token => ?_
  rw [Token.shift_kind]
  split
  · rename_i marks hk
    refine (advance_peeked (by rw [hk]; rfl) fun _ _ => ahead_of_live).bind fun _ => ?_
    refine .pure ?_ fun _ _ h => h
    simp [mapStep, Prod.map, Span.shift_merge, stringValue]
  · exact .pure rfl fun _ _ h => h.1

theorem operandAfter (v : Version) (he : InLineExprs E k e e') (token : Token) :
    InLine E k (Expr.shift σ.offset) (Parser.operandAfter v e (token.shift σ.offset))
      (Parser.operandAfter v e' token) := by
  unfold Parser.operandAfter
  have hliteral : ∀ kind, InLine E k (Expr.shift σ.offset)
      (Pure.pure (.literal kind (token.shift σ.offset).span))
      (Pure.pure (.literal kind token.span)) :=
    fun _ => .pure rfl fun _ _ h => h
  simp only [Token.shift_kind, Token.shift_span] at hliteral ⊢
  split
  · refine (moreStrings token).bind fun (value, span) => ?_
    exact .pure rfl fun _ _ h => h
  · exact hliteral _
  · exact hliteral _
  · exact hliteral _
  · exact hliteral _
  · exact hliteral _
  · exact hliteral _
  · exact hliteral _
  · exact parenthesized v he _
  · exact listDisplay v he _
  · exact curlyDisplay v he _
  · exact unary he _ _ _
  · exact unary he _ _ _
  · exact unary he _ _ _
  · exact unary he _ _ _
  · exact unary he _ _ _
  · exact starred he token
  · exact lambda he _
  · exact yieldExpr he _
  · exact backquoted he _
  · refine (report rfl fun _ _ h => h).begun.bind fun _ => ?_
    exact .pure rfl fun _ _ => live_of_lost
  · refine (expected rfl fun _ _ h => h).begun.bind fun _ => ?_
    exact .pure rfl fun _ _ => live_of_lost

/-- An operand, which is left alone where it is missing. -/
theorem operand (v : Version) (he : InLineExprs E k e e') :
    Sim E (Meets σ .ahead k) (fun _ => Tried σ k) (Expr.shift σ.offset) (Parser.operand v e)
      (Parser.operand v e') := by
  unfold Parser.operand
  refine (peek fun _ _ h => h).bind fun token => ?_
  rw [identifier?_shift]
  cases hname : identifier? token with
  | some ident =>
    have hplain := isLayout_of_identifier? hname
    refine cond (ask fun s t h => h.1.atSoftAwait v) ?_ ?_
    · refine ((advance_peeked hplain fun _ _ h => h).pre fun _ _ h => h.1).bind fun _ => ?_
      exact (unary he _ _ _).post fun _ _ _ => tried_of_live
    · refine ((advance_peeked hplain fun _ _ h => h).pre fun _ _ h => h.1).bind fun _ => ?_
      exact .pure rfl fun _ _ => tried_of_live
  | none =>
    simp only [Option.map_none, Token.shift_kind]
    refine .ite (fun hend => ?_) fun hend => ?_
    · refine (report_at (P := fun c => c.kind.endsOperand = true) rfl (fun _ _ h => h.1)
        fun s t h => ?_).bind fun _ => .pure rfl fun s t h => ?_
      · rw [Cursor.kind_eq, h.2]
        exact hend
      · refine ⟨h.1.of_lost .lined k, fun hk => ?_⟩
        rw [h.2] at hk
        cases hk
    · have hplain : token.kind.isLayout = false := by
        revert hend
        cases token.kind <;> simp [TokenKind.endsOperand, TokenKind.isLayout]
      refine (advance_peeked hplain fun _ _ h => h).bind fun _ => ?_
      exact (operandAfter v he token).post fun _ _ _ => tried_of_live

/-! ### Continuations -/

theorem conditional (he : InLineExprs E k e e') (start : Span) :
    InLine E k (Expr.shift σ.offset) (Parser.conditional e (start.shift σ.offset))
      (Parser.conditional e' start) := by
  unfold Parser.conditional
  refine (he _).discard.bind fun _ => ?_
  refine (peek fun _ _ => ahead_of_live).bind fun token => ?_
  refine cond (eats _ rfl fun _ _ h => ahead_of_live h.1) ?_ ?_
  · exact (he _).discard.bind fun _ => otherFrom start
  · refine ((expected rfl fun _ _ h => h).begun.pre fun _ _ h => h.1.1).bind fun _ => ?_
    exact (otherFrom start).pre fun _ _ => live_of_lost

theorem expectIdentifier_found :
    Sim E (Live σ k) (AfterEat (Live σ k) (Begun (Meets σ .lost k)))
      (Option.map (Identifier.shift σ.offset)) Parser.expectIdentifier
      Parser.expectIdentifier := by
  unfold Parser.expectIdentifier
  refine (peek fun _ _ => ahead_of_live).bind fun token => ?_
  rw [identifier?_shift]
  cases hname : identifier? token with
  | some ident =>
    have hplain := isLayout_of_identifier? hname
    refine (advance_peeked hplain fun _ _ => ahead_of_live).bind fun _ => ?_
    exact .pure rfl fun _ _ h => h
  | none =>
    refine ((expected rfl fun _ _ h => h).begun.pre fun _ _ h => h.1).bind fun _ => ?_
    exact .pure rfl fun _ _ h => h

theorem expectIdentifier :
    InLine E k (Option.map (Identifier.shift σ.offset)) Parser.expectIdentifier
      Parser.expectIdentifier :=
  (expectIdentifier_found).post fun ident _ _ h => by
    cases ident with
    | some ident => exact h
    | none => exact live_of_lost h

/-- A continuation is announced by tokens of a line. -/
theorem continuation?_plain {c : Cursor} {continuation : Continuation}
    (h : c.continuation? = some continuation) :
    c.kind.isLayout = false ∧ (continuation.width = 2 → (c.kindAt 1).isLayout = false) := by
  rw [Cursor.continuation?] at h
  generalize c.kind = first at h ⊢
  generalize c.kindAt 1 = second at h ⊢
  constructor
  -- Only `not in` and `is not` are announced by two tokens.
  · cases first <;> simp [Continuation.ofKinds?, TokenKind.isLayout] at h ⊢
  · intro hwidth
    unfold Continuation.ofKinds? at h
    split at h
    · cases h; cases hwidth
    · cases h; cases hwidth
    · cases h; cases hwidth
    · cases h; cases hwidth
    · split at h
      · rename_i hsecond
        rw [hsecond]
        rfl
      · cases h
    · split at h
      · rename_i hsecond
        rw [hsecond]
        rfl
      · cases h; cases hwidth
    · cases h; cases hwidth
    · cases h; cases hwidth
    · cases h; cases hwidth
    · cases h; cases hwidth
    · rename_i op _ _ _ _
      cases hop : op.precedence? with
      | none => rw [hop] at h; cases h
      | some p => rw [hop] at h; cases h; cases hwidth
    · cases h

theorem continued (v : Version) (he : InLineExprs E k e e') (lhs : Expr) (token : Token)
    (continuation : Continuation) :
    Sim E (fun s t => Live σ k s t ∧
        (continuation.width = 2 → t.cursor.kind.isLayout = false))
      (fun _ => Live σ k) (Expr.shift σ.offset)
      (Parser.continued v e (lhs.shift σ.offset) (token.shift σ.offset) continuation)
      (Parser.continued v e' lhs token continuation) := by
  unfold Parser.continued
  cases continuation with
  | call =>
    refine ((callArguments v he).pre fun _ _ h => h.1).bind fun arguments => ?_
    refine (spanFrom (Expr.span_shift _ _) fun _ _ h => h).bind fun span => ?_
    refine .pure ?_ fun _ _ h => h
    rw [Expr.shift, shiftArguments_eq_map]
  | subscript =>
    refine ((subscript he).pre fun _ _ h => h.1).bind fun index => ?_
    refine (spanFrom (Expr.span_shift _ _) fun _ _ h => h).bind fun span => ?_
    exact .pure rfl fun _ _ h => h
  | «attribute» =>
    refine ((expectIdentifier).pre fun _ _ h => h.1).bind fun attr => ?_
    cases attr with
    | some attr =>
      refine .pure ?_ fun _ _ h => h
      simp [Expr.shift, Span.shift_merge]
    | none =>
      refine .pure ?_ fun _ _ h => h
      simp [Expr.shift, Span.shift_merge]
  | conditional =>
    rw [Expr.span_shift]
    exact (conditional he lhs.span).pre fun _ _ h => h.1
  | walrus =>
    refine ((he _).pre fun _ _ h => h.1).bind fun value => ?_
    refine .pure ?_ fun _ _ h => h
    simp [Expr.shift, Span.shift_merge]
  | binary op =>
    -- Some operators are two tokens wide. Then the second one is read before the operand.
    have hrhs : ∀ precedence, InLine E k (Expr.shift σ.offset)
        (do Pure.pure (Parser.binary op (lhs.shift σ.offset) (← e precedence)))
        (do Pure.pure (Parser.binary op lhs (← e' precedence))) := by
      intro precedence
      refine (he _).bind fun rhs => ?_
      refine .pure ?_ fun _ _ h => h
      simp [Parser.binary, Expr.shift, Span.shift_merge]
    refine .ite (fun hwidth => ?_) fun _ => (hrhs _).pre fun _ _ h => h.1
    refine (advance fun s t h => ⟨h.1.1, h.2 (eq_of_beq hwidth)⟩).bind fun _ => hrhs _

theorem continuations (v : Version) (he : InLineExprs E k e e') (precedence : Precedence)
    (lhs : Expr) :
    Sim E (Tried σ k) (fun _ => Tried σ k) (Expr.shift σ.offset)
      (Parser.continuations v e precedence (lhs.shift σ.offset))
      (Parser.continuations v e' precedence lhs) := by
  unfold Parser.continuations
  refine loop (I := fun _ => Tried σ k) (fun lhs => ?_) (fun _ _ _ h => ⟨k, h.1.anywhere⟩)
    (by intro _; rfl) (by intro _ _ _ h; exact h) lhs
  refine (inspect fun _ _ h => h.1.ahead.continuation?).bind fun continuation => ?_
  cases continuation with
  | none => exact .pure rfl fun _ _ h => h.1
  | some continuation =>
    refine .ite (fun _ => .pure rfl fun _ _ h => h.1) fun _ => ?_
    refine (next_to (P := fun c => continuation.width = 2 → c.kind.isLayout = false)
      (fun s t h => ⟨h.1.1.ahead, (continuation?_plain h.2).1⟩) fun s t h => ?_).bind
      fun token => ?_
    · rw [Cursor.kind_advance]
      exact (continuation?_plain h.2).2
    · exact (continued v he lhs token continuation).map (fun _ => rfl) fun _ _ _ => tried_of_live

/-- An expression, given the expressions in it. -/
theorem exprWith (v : Version) (he : InLineExprs E k e e') (precedence : Precedence) :
    Sim E (Meets σ .ahead k) (fun _ => Tried σ k) (Expr.shift σ.offset)
      (Parser.exprWith v e precedence) (Parser.exprWith v e' precedence) := by
  unfold Parser.exprWith
  exact (operand v he).bind fun lhs => continuations v he precedence lhs

/-- The parser of the expressions in an expression that begins at `t`. -/
private def inner (v : Version) (t : ParserState) : ExprParser := fun precedence =>
  Parser.nested t.remaining (.error t.cursor.peek.span) fun u _ =>
    Parser.parseExpr v precedence u

private theorem parseExpr_eq (v : Version) (precedence : Precedence) (t : ParserState) :
    Parser.parseExpr v precedence t = Parser.exprWith v (inner v t) precedence t := by
  rw [Parser.parseExpr]
  rfl

/-- A way out that is always open: what is left of a run in step is what it does to the
    state. -/
def always (σ : Seam) : Escape σ := ⟨fun _ => True, fun _ _ => trivial, fun _ _ => trivial⟩

/-- Tokens are read and errors added by every expression. -/
theorem onward_parseExpr (v : Version) (precedence : Precedence) (t : ParserState) :
    Onward t (Parser.parseExpr v precedence t).2 := by
  suffices ∀ m, ∀ precedence t, t.remaining = m → Onward t (Parser.parseExpr v precedence t).2 by
    exact this _ precedence t rfl
  -- Induction on the number of tokens left, which bounds the expressions in an expression.
  intro m
  induction m using Nat.strongRecOn with
  | ind m ih =>
    intro precedence t hm
    have hinner : InLineExprs (always (.back [] 0)) 0 (inner v t) (inner v t) := by
      intro precedence
      refine ⟨fun u => ?_, fun _ _ _ => .inl trivial⟩
      rw [inner, Parser.nested]
      split
      · rename_i hlt
        exact ih _ (hm ▸ hlt) precedence u rfl
      · exact Onward.refl u
    rw [parseExpr_eq]
    exact (exprWith v hinner precedence).onward t

/-- An expression runs in step wherever some token is left. -/
theorem parseExpr (v : Version) (precedence : Precedence) :
    Sim E (Meets σ .ahead k) (fun _ => Tried σ k) (Expr.shift σ.offset)
      (Parser.parseExpr v precedence) (Parser.parseExpr v precedence) where
  onward := onward_parseExpr v precedence
  run s t hI := by
    suffices ∀ m, ∀ precedence s t, t.remaining = m → Meets σ .ahead k s t →
        E.holds (Parser.parseExpr v precedence t).2
          ∨ ((Parser.parseExpr v precedence s).1
              = (Parser.parseExpr v precedence t).1.shift σ.offset
            ∧ Tried σ k (Parser.parseExpr v precedence s).2
              (Parser.parseExpr v precedence t).2) by
      exact this _ precedence s t rfl hI
    intro m
    induction m using Nat.strongRecOn with
    | ind m ih =>
      intro precedence s t hm h
      have hinner : InLineExprs E k (inner v s) (inner v t) := by
        intro precedence
        refine nested (fun s' t' h' => h.remaining_lt_iff h'.1) ?_ (fun _ _ h' _ => h')
          (fun u _ => onward_parseExpr v precedence u) fun s' t' _ hlt h' => ?_
        · rw [h.peek]
          rfl
        · refine (ih _ (hm ▸ hlt) precedence s' t' rfl (ahead_of_live h')).imp_right ?_
          rintro ⟨hval, htried⟩
          refine ⟨hval, htried.1, ?_⟩
          exact (onward_parseExpr v precedence t').begun h'.2
      rw [parseExpr_eq, parseExpr_eq]
      exact (exprWith v hinner precedence).run s t h

theorem parseExprs (v : Version) :
    InLineExprs E k (Parser.parseExpr v) (Parser.parseExpr v) := fun precedence =>
  ((parseExpr v precedence).begun.pre fun _ _ h => ⟨ahead_of_live h, h.2⟩).post
    fun _ _ _ h => ⟨h.1.1, h.2⟩

theorem expression (v : Version) :
    InLine E k (Expr.shift σ.offset) (Parser.expression v) (Parser.expression v) :=
  parseExprs v .initial

/-- Expressions at the beginning of a statement. -/
theorem starExpressions_ahead (v : Version) :
    Sim E (Meets σ .ahead k) (fun _ => Tried σ k) (Expr.shift σ.offset)
      (Parser.starExpressions v) (Parser.starExpressions v) :=
  starExprs_around aroundExpr_ahead (parseExprs v) (parseExpr v .initial)

theorem starExpressions (v : Version) :
    InLine E k (Expr.shift σ.offset) (Parser.starExpressions v) (Parser.starExpressions v) :=
  starExprs (parseExprs v)

end Sim

end PyAtlas
