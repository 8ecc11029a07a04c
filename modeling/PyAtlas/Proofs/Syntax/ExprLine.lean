import PyAtlas.Proofs.Syntax.Line
import PyAtlas.Syntax.ParseExpr

/-!
# Expressions stay on their line

No production for expressions reads layout. Most of them are put together from others in ways
that keep this, whatever the tokens are; where a token is read because of its kind, the kind is
none of the layout.

## Key results
- `Stays.exprWith`: the production for whole expressions, given the one for the expressions in it.
- `Stays.parseExpr`: no expression leaves its line.
-/

namespace PyAtlas

namespace Stays

open PyAtlas.Parser

variable {I : ParserState → Prop} {e : ExprParser}

/-! ### Lists of expressions -/

theorem starred (he : ∀ precedence, StaysAnywhere (e precedence)) (star : Token) :
    Stays I (Parser.starred e star) := by
  unfold Parser.starred
  exact (he _).anywhere.bind fun _ => .pure

theorem starOrExpr (he : ∀ precedence, StaysAnywhere (e precedence)) :
    Stays I (Parser.starOrExpr e) := by
  unfold Parser.starOrExpr
  refine peek_bind fun token => .ite (fun hstar => ?_) fun _ => (he _).anywhere
  have hplain : token.kind.isLayout = false := by rw [eq_of_beq hstar]; rfl
  exact (advance_peeked hplain).bind fun _ => starred he token

theorem moreStarExprs (he : ∀ precedence, StaysAnywhere (e precedence)) (items : List Expr) :
    Stays I (Parser.moreStarExprs e items) := by
  unfold Parser.moreStarExprs
  refine loop (fun items => ?_) items
  refine (eats rfl).bind fun _ => .ite (fun _ => ?_) fun _ => .pure
  refine kind_bind fun _ => .ite (fun _ => ?_) fun _ => .pure
  exact (starOrExpr he).bind fun _ => .pure

theorem starExprs (he : ∀ precedence, StaysAnywhere (e precedence)) :
    Stays I (Parser.starExprs e) := by
  unfold Parser.starExprs
  refine (starOrExpr he).bind fun first => at?_bind fun _ => .ite (fun _ => ?_) fun _ => .pure
  exact (moreStarExprs he _).bind fun _ => spanFrom_bind fun _ => .pure

/-! ### Brackets -/

theorem expectClosing (closing : Operator) : Stays I (Parser.expectClosing closing) := by
  unfold Parser.expectClosing
  refine peek_bind fun token => (eats rfl).bind fun _ => .ite (fun _ => .pure) fun _ => ?_
  refine expected.bind fun _ => skipToClosing.bind fun _ => ?_
  exact (eat rfl).discard

theorem comprehension (start : Span) (closing : Operator) :
    Stays I (Parser.comprehension start closing) := by
  unfold Parser.comprehension
  refine skipToClosing.bind fun _ => (expectClosing closing).bind fun _ => ?_
  exact spanFrom_bind fun _ => .pure

theorem moreItems (he : ∀ precedence, StaysAnywhere (e precedence)) (closing : Operator)
    (items : List Expr) : Stays I (Parser.moreItems e closing items) := by
  unfold Parser.moreItems
  refine loop (fun items => ?_) items
  refine (eats rfl).bind fun _ => .ite (fun _ => ?_) fun _ => .pure
  refine at?_bind fun _ => .ite (fun _ => .pure) fun _ => ?_
  exact (starOrExpr he).bind fun _ => .pure

theorem yieldExpr (he : ∀ precedence, StaysAnywhere (e precedence)) (start : Span) :
    Stays I (Parser.yieldExpr e start) := by
  unfold Parser.yieldExpr
  refine (eats rfl).bind fun _ => .ite (fun _ => ?_) fun _ => ?_
  · exact (he _).discard.bind fun _ => spanFrom_bind fun _ => .pure
  · refine kind_bind fun _ => .ite (fun _ => ?_) fun _ => spanFrom_bind fun _ => .pure
    exact (starExprs he).discard.bind fun _ => spanFrom_bind fun _ => .pure

theorem parenthesized (v : Version) (he : ∀ precedence, StaysAnywhere (e precedence))
    (start : Span) : Stays I (Parser.parenthesized v e start) := by
  unfold Parser.parenthesized
  refine (eats rfl).bind fun _ => .ite (fun _ => spanFrom_bind fun _ => .pure) fun _ => ?_
  refine (eat rfl).bind fun word => ?_
  cases word with
  | some word =>
    refine (yieldExpr he word.span).discard.bind fun _ => (expectClosing _).bind fun _ => ?_
    exact spanFrom_bind fun _ => .pure
  | none =>
    refine (starOrExpr he).bind fun first => look_bind_any fun _ => ?_
    refine .ite (fun _ => comprehension start _) fun _ => at?_bind fun _ => .ite (fun _ => ?_)
      fun _ => (expectClosing _).bind fun _ => .pure
    refine (moreItems he _ _).bind fun _ => (expectClosing _).bind fun _ => ?_
    exact spanFrom_bind fun _ => .pure

theorem listDisplay (v : Version) (he : ∀ precedence, StaysAnywhere (e precedence))
    (start : Span) : Stays I (Parser.listDisplay v e start) := by
  unfold Parser.listDisplay
  refine (eats rfl).bind fun _ => .ite (fun _ => spanFrom_bind fun _ => .pure) fun _ => ?_
  refine (starOrExpr he).bind fun first => look_bind_any fun _ => ?_
  refine .ite (fun _ => comprehension start _) fun _ => ?_
  refine (moreItems he _ _).bind fun _ => (expectClosing _).bind fun _ => ?_
  exact spanFrom_bind fun _ => .pure

theorem dictEntry (he : ∀ precedence, StaysAnywhere (e precedence)) :
    Stays I (Parser.dictEntry e) := by
  unfold Parser.dictEntry
  refine peek_bind fun start => (eats rfl).bind fun _ => .ite (fun _ => ?_) fun _ => ?_
  · exact (he _).bind fun _ => .pure
  · refine (he _).bind fun key => peek_bind fun token => (eats rfl).bind fun _ => ?_
    refine .ite (fun _ => (he _).bind fun _ => .pure) fun _ => ?_
    refine expected.bind fun _ => skipToClosing.bind fun _ => ?_
    exact (eat rfl).discard.bind fun _ => .pure

theorem dictEntries (v : Version) (he : ∀ precedence, StaysAnywhere (e precedence)) :
    Stays I (Parser.dictEntries v e) := by
  unfold Parser.dictEntries Parser.moreEntries
  refine loop (fun items => ?_) []
  refine (dictEntry he).bind fun entry => ?_
  cases entry with
  | none => exact .pure
  | some entry =>
    refine look_bind_any fun _ => .ite (fun _ => .pure) fun _ => ?_
    refine (eats rfl).bind fun _ => .ite (fun _ => ?_) fun _ => ?_
    · exact at?_bind fun _ => .ite (fun _ => (expectClosing _).bind fun _ => .pure) fun _ => .pure
    · exact (expectClosing _).bind fun _ => .pure

theorem curlyDisplay (v : Version) (he : ∀ precedence, StaysAnywhere (e precedence))
    (start : Span) : Stays I (Parser.curlyDisplay v e start) := by
  unfold Parser.curlyDisplay
  refine (eats rfl).bind fun _ => .ite (fun _ => spanFrom_bind fun _ => .pure) fun _ => ?_
  refine look_bind_any fun _ => .ite (fun _ => ?_) fun _ => ?_
  · refine (dictEntries v he).bind fun items => ?_
    cases items with
    | some items => exact spanFrom_bind fun _ => .pure
    | none => exact comprehension start _
  · refine (starOrExpr he).bind fun first => look_bind_any fun _ => ?_
    refine .ite (fun _ => comprehension start _) fun _ => ?_
    refine (moreItems he _ _).bind fun _ => (expectClosing _).bind fun _ => ?_
    exact spanFrom_bind fun _ => .pure

/-! ### Subscripts -/

theorem sliceBounds (he : ∀ precedence, StaysAnywhere (e precedence)) :
    Stays I (Parser.sliceBounds e) := by
  unfold Parser.sliceBounds
  refine loop (fun _ => ?_) ()
  refine (eats rfl).bind fun _ => .ite (fun _ => kind_bind fun _ => ?_) fun _ => .pure
  split
  · exact .pure
  · exact .pure
  · exact .pure
  · exact (he _).discard.bind fun _ => .pure

theorem slice (he : ∀ precedence, StaysAnywhere (e precedence)) (start : Span) :
    Stays I (Parser.slice e start) := by
  unfold Parser.slice
  exact (sliceBounds he).bind fun _ => spanFrom_bind fun _ => .pure

theorem subscriptItem (he : ∀ precedence, StaysAnywhere (e precedence)) :
    Stays I (Parser.subscriptItem e) := by
  unfold Parser.subscriptItem
  refine peek_bind fun start => .ite (fun _ => slice he _) fun _ => ?_
  refine (starOrExpr he).bind fun lower => at?_bind fun _ => ?_
  exact .ite (fun _ => slice he _) fun _ => .pure

theorem subscriptItems (he : ∀ precedence, StaysAnywhere (e precedence)) :
    Stays I (Parser.subscriptItems e) := by
  unfold Parser.subscriptItems
  refine loop (fun (items, separated) => ?_) ([], false)
  refine kind_bind fun _ => .ite (fun _ => .pure) fun _ => ?_
  refine (subscriptItem he).bind fun item => (eats rfl).bind fun _ => ?_
  exact .ite (fun _ => .pure) fun _ => .pure

theorem subscript (he : ∀ precedence, StaysAnywhere (e precedence)) :
    Stays I (Parser.subscript e) := by
  unfold Parser.subscript
  refine peek_bind fun start => (subscriptItems he).bind fun (items, separated) => ?_
  refine (expectClosing _).bind fun _ => ?_
  split
  · exact .pure
  · exact spanFrom_bind fun _ => .pure

/-! ### Calls -/

theorem positionalArgument (v : Version) (he : ∀ precedence, StaysAnywhere (e precedence)) :
    Stays I (Parser.positionalArgument v e) := by
  unfold Parser.positionalArgument
  refine (he _).anywhere.bind fun value => look_bind_any fun _ => .ite (fun _ => ?_) fun _ => .pure
  exact skipToClosing.bind fun _ => spanFrom_bind fun _ => .pure

theorem argument (v : Version) (he : ∀ precedence, StaysAnywhere (e precedence)) :
    Stays I (Parser.argument v e) := by
  unfold Parser.argument
  refine peek_bind fun token => ?_
  split
  · rename_i hkind
    exact (advance_peeked (by rw [hkind]; rfl)).bind fun _ => (he _).map
  · rename_i hkind
    exact (advance_peeked (by rw [hkind]; rfl)).bind fun _ => (he _).map
  · split
    · rename_i name hname
      refine look_bind fun keyword => .ite (fun hkeyword => ?_) fun _ => positionalArgument v he
      -- The equals sign behind the name has been seen as well, so it may be read too.
      have hplain : ∀ s : ParserState, s.cursor.peek = token ∧
          (s.cursor.kindAt 1 == .equal) = keyword →
          Along s (s.move fun c => c.advance.advance) := by
        rintro s ⟨hpeek, hequal⟩
        have hfirst : s.cursor.kind.isLayout = false := by
          rw [Cursor.kind_eq, hpeek]
          exact isLayout_of_identifier? hname
        have hsecond : s.cursor.advance.kind.isLayout = false := by
          rw [Cursor.kind_advance, eq_of_beq (hequal.trans hkeyword)]
          rfl
        exact (Along.advance hfirst).trans (Along.advance (s := s.move Cursor.advance) hsecond)
      intro s hs hi
      have hline := (hplain s hi).onLine hs
      exact (hplain s hi).trans (he _ _ hline trivial)
    · exact positionalArgument v he

theorem callArguments (v : Version) (he : ∀ precedence, StaysAnywhere (e precedence)) :
    Stays I (Parser.callArguments v e) := by
  unfold Parser.callArguments Parser.moreArguments
  refine loop (fun arguments => ?_) []
  refine look_bind fun next => .ite (fun hclose => ?_) fun _ => .ite (fun hcomma => ?_) fun _ => ?_
  · refine (advance fun s hs => ?_).bind fun _ => .pure
    rw [hs.2, eq_of_beq hclose]
    rfl
  · refine (advance fun s hs => ?_).bind fun _ => .pure
    rw [Bool.and_eq_true] at hcomma
    rw [hs.2, eq_of_beq hcomma.1]
    rfl
  · refine (argument v he).bind fun item => peek_bind fun token => ?_
    split
    · exact .pure
    · exact .pure
    · refine expected.bind fun _ => skipToClosing.bind fun _ => ?_
      exact (eat rfl).discard.bind fun _ => .pure

/-! ### Operands -/

theorem unary (he : ∀ precedence, StaysAnywhere (e precedence)) (op : UnaryOp)
    (precedence : Precedence) (start : Span) : Stays I (Parser.unary e op precedence start) := by
  unfold Parser.unary
  exact (he _).anywhere.bind fun _ => .pure

theorem lambdaParameters : Stays I Parser.lambdaParameters := by
  unfold Parser.lambdaParameters
  refine loop (fun depth => ?_) 0
  refine peek_bind fun token => ?_
  split
  · exact expected.bind fun _ => .pure
  · exact expected.bind fun _ => .pure
  · rename_i op hkind
    have hplain : token.kind.isLayout = false := by rw [hkind]; rfl
    refine .ite (fun _ => (advance_peeked hplain).bind fun _ => .pure) fun _ => ?_
    refine .ite (fun _ => (advance_peeked hplain).bind fun _ => .pure) fun _ => ?_
    refine .ite (fun _ => ?_) fun _ => (advance_peeked hplain).bind fun _ => .pure
    refine .ite (fun _ => expected.bind fun _ => .pure) fun _ => ?_
    exact (advance_peeked hplain).bind fun _ => .pure
  · rename_i hnewline _ _
    exact (advance_inner hnewline).bind fun _ => .pure

theorem lambda (he : ∀ precedence, StaysAnywhere (e precedence)) (start : Span) :
    Stays I (Parser.lambda e start) := by
  unfold Parser.lambda
  refine lambdaParameters.bind fun _ => .ite (fun _ => ?_) fun _ => spanFrom_bind fun _ => .pure
  exact (he _).bind fun _ => .pure

theorem backquoted (he : ∀ precedence, StaysAnywhere (e precedence)) (start : Span) :
    Stays I (Parser.backquoted e start) := by
  unfold Parser.backquoted
  refine (starExprs he).discard.bind fun _ => peek_bind fun token => (eats rfl).bind fun _ => ?_
  refine .ite (fun _ => ?_) fun _ => spanFrom_bind fun _ => .pure
  exact expected.bind fun _ => spanFrom_bind fun _ => .pure

theorem moreStrings (first : Token) : Stays I (Parser.moreStrings first) := by
  unfold Parser.moreStrings
  refine loop (fun (value, span) => ?_) _
  refine peek_bind fun token => ?_
  split
  · rename_i hkind
    exact (advance_peeked (by rw [hkind]; rfl)).bind fun _ => .pure
  · exact .pure

theorem operandAfter (v : Version) (he : ∀ precedence, StaysAnywhere (e precedence))
    (token : Token) : Stays I (Parser.operandAfter v e token) := by
  unfold Parser.operandAfter
  split
  · exact (moreStrings token).bind fun _ => .pure
  · exact .pure
  · exact .pure
  · exact .pure
  · exact .pure
  · exact .pure
  · exact .pure
  · exact .pure
  · exact parenthesized v he _
  · exact listDisplay v he _
  · exact curlyDisplay v he _
  · exact unary he _ _ _
  · exact unary he _ _ _
  · exact unary he _ _ _
  · exact unary he _ _ _
  · exact unary he _ _ _
  · exact starred he token
  · exact lambda he _
  · exact yieldExpr he _
  · exact backquoted he _
  · exact report.bind fun _ => .pure
  · exact expected.bind fun _ => .pure

/-- What is left alone where an operand is missing includes all layout. -/
theorem isLayout_of_endsOperand {k : TokenKind} (h : ¬ k.endsOperand = true) :
    k.isLayout = false := by
  revert h
  cases k <;> simp [TokenKind.endsOperand, TokenKind.isLayout]

theorem operand (v : Version) (he : ∀ precedence, StaysAnywhere (e precedence)) :
    Stays I (Parser.operand v e) := by
  unfold Parser.operand
  refine peek_bind fun token => ?_
  split
  · rename_i ident hident
    have hplain := isLayout_of_identifier? hident
    refine look_bind_any fun _ => .ite (fun _ => ?_) fun _ => ?_
    · exact (advance_peeked hplain).bind fun _ => unary he _ _ _
    · exact (advance_peeked hplain).bind fun _ => .pure
  · refine .ite (fun _ => expected.bind fun _ => .pure) fun hends => ?_
    exact (advance_peeked (isLayout_of_endsOperand hends)).bind fun _ => operandAfter v he token

/-! ### Continuations -/

theorem conditional (he : ∀ precedence, StaysAnywhere (e precedence)) (start : Span) :
    Stays I (Parser.conditional e start) := by
  unfold Parser.conditional
  refine (he _).anywhere.discard.bind fun _ => peek_bind fun token => (eats rfl).bind fun _ => ?_
  refine .ite (fun _ => ?_) fun _ => expected.bind fun _ => spanFrom_bind fun _ => .pure
  exact (he _).discard.bind fun _ => spanFrom_bind fun _ => .pure

/-- The tokens that announce a continuation belong to the line. -/
theorem isLayout_of_ofKinds? {first second : TokenKind} {continuation : Continuation}
    (h : Continuation.ofKinds? first second = some continuation) :
    first.isLayout = false ∧ (continuation.width = 2 → second.isLayout = false) := by
  unfold Continuation.ofKinds? at h
  split at h
  all_goals first
    | exact ⟨rfl, fun hwidth => by cases h; cases hwidth⟩
    | skip
  · split at h
    · rename_i hin
      exact ⟨rfl, fun _ => by rw [hin]; rfl⟩
    · cases h
  · split at h
    · rename_i hnot
      exact ⟨rfl, fun _ => by rw [hnot]; rfl⟩
    · cases h
      exact ⟨rfl, fun hwidth => by cases hwidth⟩
  · refine ⟨rfl, fun hwidth => ?_⟩
    obtain ⟨_, -, rfl⟩ := Option.map_eq_some_iff.1 h
    cases hwidth
  · cases h

theorem continued (v : Version) (he : ∀ precedence, StaysAnywhere (e precedence)) (lhs : Expr)
    (token : Token) (continuation : Continuation)
    (hI : ∀ s, I s → continuation.width = 2 → s.cursor.kind.isLayout = false) :
    Stays I (Parser.continued v e lhs token continuation) := by
  unfold Parser.continued
  split
  · exact (callArguments v he).bind fun _ => spanFrom_bind fun _ => .pure
  · exact (subscript he).bind fun _ => spanFrom_bind fun _ => .pure
  · refine expectIdentifier.bind fun attr => ?_
    cases attr with
    | some attr => exact .pure
    | none => exact .pure
  · exact conditional he _
  · exact (he _).anywhere.bind fun _ => .pure
  · rename_i op
    refine .ite (fun hwidth => ?_) fun _ => (he _).anywhere.bind fun _ => .pure
    refine (advance fun s hs => hI s hs (eq_of_beq hwidth)).bind fun _ => ?_
    exact (he _).bind fun _ => .pure

theorem continuations (v : Version) (he : ∀ precedence, StaysAnywhere (e precedence))
    (precedence : Precedence) (lhs : Expr) :
    Stays I (Parser.continuations v e precedence lhs) := by
  unfold Parser.continuations
  refine loop (fun lhs => ?_) lhs
  refine look_bind fun continuation => ?_
  cases continuation with
  | none => exact .pure
  | some continuation =>
    refine .ite (fun _ => .pure) fun _ => ?_
    intro s hs hi
    obtain ⟨hfirst, hsecond⟩ := isLayout_of_ofKinds? hi.2
    have hnext := Along.advance hfirst
    refine hnext.trans ?_
    refine (continued (I := fun t => t = s.move Cursor.advance) v he lhs s.cursor.peek continuation
      ?_).map _ (hnext.onLine hs) rfl
    rintro t rfl hwidth
    rw [Cursor.kind_advance]
    exact hsecond hwidth

theorem exprWith (v : Version) (he : ∀ precedence, StaysAnywhere (e precedence))
    (precedence : Precedence) : Stays I (Parser.exprWith v e precedence) := by
  unfold Parser.exprWith
  exact (operand v he).bind fun lhs => continuations v he precedence lhs

/-- No expression leaves its line. -/
theorem parseExpr (v : Version) (precedence : Precedence) :
    Stays I (Parser.parseExpr v precedence) := by
  suffices ∀ m, ∀ precedence s, s.remaining = m → OnLine s.cursor.after →
      Along s (Parser.parseExpr v precedence s).2 by
    exact fun s hs _ => this _ precedence s rfl hs
  intro m
  induction m using Nat.strongRecOn with
  | ind m ih =>
    intro precedence s hm hs
    rw [Parser.parseExpr]
    refine exprWith (I := fun _ => True) v (fun inner => nested fun t hlt ht => ?_) precedence s
      hs trivial
    exact ih _ (hm ▸ hlt) inner t rfl ht

theorem expression (v : Version) : Stays I (Parser.expression v) :=
  parseExpr v _

theorem starExpressions (v : Version) : Stays I (Parser.starExpressions v) :=
  starExprs fun _ => parseExpr v _

end Stays

end PyAtlas
