import PyAtlas.Proofs.Syntax.Silence
import PyAtlas.Syntax.ParseExpr

/-!
# Expressions that report nothing

Every production for expressions that reports nothing closes the brackets that it opens, and has
met no lexical error but those that are passed over. The rest of a comprehension is passed over
because a bracket is open where its `for` stands, the parameters of a lambda because they stand
behind the word.

Loops that read up to a closing bracket leave the brackets as they are when they give up, which
is not what they do when they end. They never give up, since every expression that reports nothing
reads a token; that is what `ReadsToken` adds to `KeepsBrackets`.

## Key results
- `Cursor.comprehension_passed`: the rest of a comprehension is passed over.
- `Quiet.lambdaParameters`: so are the parameters of a lambda.
- `Quiet.parseExpr`: an expression leaves the brackets as they are.
-/

namespace PyAtlas

open PyAtlas.Parser

/-! ### What productions do to the brackets -/

section Modes

variable {m : Nat} {α : Type} {p : Parser α}

/-- The parser leaves the brackets as they are. -/
def KeepsBrackets (m : Nat) {α : Type} (p : Parser α) : Prop :=
  ∀ σ, Quiet (Inside σ m) (fun _ => Inside σ m) p

/-- The parser reads the bracket that closes the innermost one. -/
def LeavesBracket (m : Nat) {α : Type} (p : Parser α) : Prop :=
  ∀ b σ, Quiet (Inside (b :: σ) m) (fun _ => Inside σ m) p

/-- The parser leaves the brackets as they are and reads a token. -/
def ReadsToken (m : Nat) {α : Type} (p : Parser α) : Prop :=
  ∀ σ l, Quiet (fun s => Inside σ m s ∧ s.remaining < l + 1)
    (fun _ s => Inside σ m s ∧ s.remaining < l) p

/-- The parser of expressions reads a token, whatever the precedence. -/
abbrev ReadExprs (m : Nat) (e : ExprParser) : Prop :=
  ∀ precedence, ReadsToken m (e precedence)

theorem ReadsToken.keeps (h : ReadsToken m p) : KeepsBrackets m p := fun σ =>
  { onward := (h σ 0).onward
    silent := fun s hi hsame => by
      obtain ⟨hunharmed, hj⟩ := (h σ s.remaining).silent s ⟨hi, Nat.lt_succ_self _⟩ hsame
      exact ⟨hunharmed, hj.1⟩ }

end Modes

/-! ### Comprehensions -/

namespace Cursor

variable {c : Cursor}

theorem closingDistance_keep {t : Token} (h : t.kind.keepsBrackets = true) (depth : Nat)
    (ts : List Token) : closingDistance depth (t :: ts) = closingDistance depth ts + 1 := by
  rw [closingDistance.eq_def]
  dsimp only
  split
  · rename_i hk
    rw [hk] at h
    cases h
  · rename_i hk
    rw [hk] at h
    cases h
  · rename_i op hk
    rw [hk] at h
    have hop := TokenKind.no_bracket_of_keepsBrackets h
    simp only [hop.1, hop.2, Bool.false_eq_true, if_false]
  · rfl

/-- What follows a token that is no bracket is passed over together with it. -/
theorem closing_passed (hk : c.kind.keepsBrackets = true)
    (h : ∀ i < closingDistance 0 c.advance.after, ¬ (c.advance.advanceBy i).AtLexicalError) :
    ∀ i < closingDistance 0 c.after, ¬ (c.advanceBy i).AtLexicalError := by
  intro i hi
  cases i with
  | zero => exact not_atLexicalError fun cause => TokenKind.ne_error_of_keepsBrackets hk cause
  | succ i =>
    cases hafter : c.after with
    | nil =>
      rw [hafter] at hi
      cases hi
    | cons t ts =>
      rw [kind_eq, peek_of_after hafter] at hk
      rw [advance_of_after hafter] at h
      rw [hafter, closingDistance_keep hk] at hi
      rw [advanceBy, advance_of_after hafter]
      exact h i (Nat.lt_of_succ_lt_succ hi)

/-- Behind a `for` in brackets the tokens up to the closing bracket are passed over. -/
theorem forWord_passed (hk : c.kind = .keyword .for) (hopen : openBrackets c.before ≠ []) :
    ∀ i < closingDistance 0 c.after, ¬ (c.advanceBy i).AtLexicalError := by
  refine closing_passed (by rw [hk]; rfl) fun i hi => not_atLexicalError_of_passes ?_
  cases hafter : c.after with
  | nil =>
    rw [kind_eq, peek, peekNth, hafter] at hk
    cases hk
  | cons t ts =>
    rw [kind_eq, peek_of_after hafter] at hk
    rw [advance_of_after hafter] at hi ⊢
    refine passesOver_behind ?_
    simpa [passedBehind, hk, hopen] using hi

/-- From where a comprehension begins the tokens up to the closing bracket are passed over. -/
theorem comprehension_passed {v : Version} (hat : c.atComprehension v = true)
    (hopen : openBrackets c.before ≠ []) :
    ∀ i < closingDistance 0 c.after, ¬ (c.advanceBy i).AtLexicalError := by
  rw [atComprehension, Bool.or_eq_true, Bool.and_eq_true] at hat
  -- Either `for` comes next or the word for an asynchronous one stands before it.
  rcases hat with hfor | ⟨hasync, hfor⟩
  · exact forWord_passed (eq_of_beq hfor) hopen
  · have hk : c.kind.keepsBrackets = true := by
      rw [atAsync, Bool.and_eq_true, Bool.or_eq_true, Bool.and_eq_true] at hasync
      rcases hasync.1 with hword | ⟨-, hword⟩
      · rw [kind, eq_of_beq hword]
        rfl
      · rw [Token.isWord, Bool.and_eq_true] at hword
        rw [kind_eq, peek, eq_of_beq hword.1]
        rfl
    refine closing_passed hk (forWord_passed ?_ ?_)
    · rw [kind_advance, eq_of_beq hfor]
    · cases hafter : c.after with
      | nil => rwa [advance_of_nil hafter]
      | cons t ts =>
        rw [kind_eq, peek_of_after hafter] at hk
        rwa [advance_of_after hafter, openBrackets_keep hk]

end Cursor

namespace Quiet

variable {m l : Nat} {σ : List Bool} {b : Bool} {α β : Type} {L : β → ParserState → Prop}
  {e : ExprParser}

/-! ### Tokens in brackets -/

theorem done {a : α} : Quiet (Inside σ m) (fun _ => Inside σ m) (Pure.pure a) :=
  .pure fun _ h => h

theorem eat_plain {k : TokenKind} (hk : k.keepsBrackets = true) :
    KeepsBrackets m (Parser.eat k) := by
  intro σ
  refine eat (K := fun _ => Inside σ m) (TokenKind.ne_error_of_keepsBrackets hk)
    (fun s hs hkind => ?_) fun s hs _ => hs
  exact hs.advance (by rw [hkind, hk])

theorem eats_plain {k : TokenKind} (hk : k.keepsBrackets = true) :
    KeepsBrackets m (Parser.eats k) :=
  fun σ => (eat_plain hk σ).bind fun _ => done

/-- A token that has been looked at and is no bracket may be read. -/
theorem advance_plain {token : Token} (hk : token.kind.keepsBrackets = true) :
    Quiet (fun s => Inside σ m s ∧ s.cursor.peek = token) (fun _ => Inside σ m) Parser.advance := by
  have hkind : ∀ s : ParserState, s.cursor.peek = token → s.cursor.kind.keepsBrackets = true :=
    fun s hs => by rw [Cursor.kind_eq, hs, hk]
  refine advance (fun s hs => ?_) fun s hs => ?_
  · exact Cursor.not_atLexicalError (TokenKind.ne_error_of_keepsBrackets (hkind s hs.2))
  · exact hs.1.advance (hkind s hs.2)

/-- The bracket that closes the innermost one is read, if it comes next. -/
theorem eats_closing_bind {closing : Operator} (hc : closing.isClosing = true)
    {f : Bool → Parser β} (h : Quiet (Inside σ m) L (f true))
    (h' : Quiet (Inside (b :: σ) m) L (f false)) :
    Quiet (Inside (b :: σ) m) L (Parser.eats (.operator closing) >>= f) :=
  eats_bind (fun _ => TokenKind.noConfusion) (fun _ hs hkind => hs.advance_closing hkind hc)
    (fun _ hs _ => hs) h h'

/-! ### Lists of expressions -/

theorem starred (he : ReadExprs m e) (star : Token) :
    KeepsBrackets m (Parser.starred e star) := by
  intro σ
  unfold Parser.starred
  exact ((he _).keeps σ).bind fun _ => done

theorem starOrExpr (he : ReadExprs m e) :
    KeepsBrackets m (Parser.starOrExpr e) := by
  intro σ
  unfold Parser.starOrExpr
  refine peek_bind fun token => .ite (fun hstar => ?_) fun _ => ?_
  · exact (advance_plain (by rw [eq_of_beq hstar]; rfl)).bind fun _ => starred he token σ
  · exact ((he _).keeps σ).pre fun _ hs => hs.1

theorem moreStarExprs (he : ReadExprs m e) (items : List Expr) :
    KeepsBrackets m (Parser.moreStarExprs e items) := by
  intro σ
  unfold Parser.moreStarExprs
  refine loop_keeps (fun items => ?_) items
  refine (eats_plain rfl σ).bind fun _ => .ite (fun _ => ?_) fun _ => .pure fun _ hs => hs
  refine look_bind_any fun _ => .ite (fun _ => ?_) fun _ => .pure fun _ hs => hs
  exact (starOrExpr he σ).bind fun _ => .pure fun _ hs => hs

theorem starExprs (he : ReadExprs m e) : KeepsBrackets m (Parser.starExprs e) := by
  intro σ
  unfold Parser.starExprs
  refine (starOrExpr he σ).bind fun first => look_bind_any fun _ => .ite (fun _ => ?_) fun _ => done
  exact (moreStarExprs he _ σ).bind fun _ => spanFrom_bind fun _ => done

/-! ### Brackets -/

/-- Where a closing bracket is missing this is reported, so only where it comes next do the
    brackets need to be as they were. -/
theorem expectClosing_of {closing : Operator} (hc : closing.isClosing = true) :
    Quiet (fun s => s.cursor.kind = .operator closing → Inside (b :: σ) m s) (fun _ => Inside σ m)
      (Parser.expectClosing closing) := by
  unfold Parser.expectClosing
  refine look_bind_any fun token => ?_
  refine eats_bind (M := fun _ => True) (fun _ => TokenKind.noConfusion)
    (fun s hs hkind => (hs hkind).advance_closing hkind hc) (fun _ _ _ => trivial) done ?_
  refine expected.bind fun _ => unreached fun s => ?_
  exact (Onward.skipToClosing s).trans (Onward.eat _ _)

theorem expectClosing {closing : Operator} (hc : closing.isClosing = true) :
    LeavesBracket m (Parser.expectClosing closing) :=
  fun _ _ => (expectClosing_of hc).pre fun _ hs _ => hs

/-- Passing over the rest of a comprehension. -/
theorem skipComprehension (v : Version) :
    Quiet (fun s => Inside (b :: σ) m s ∧ s.cursor.atComprehension v = true)
      (fun _ => Stopped (b :: σ) m) Parser.skipToClosing := by
  refine skipToClosing (fun s hs => hs.1) fun s hs => Cursor.comprehension_passed hs.2 ?_
  rw [hs.1.1]
  exact List.cons_ne_nil b σ

/-- The rest of a comprehension is passed over. -/
theorem comprehension (v : Version) (start : Span) {closing : Operator}
    (hc : closing.isClosing = true) :
    Quiet (fun s => Inside (b :: σ) m s ∧ s.cursor.atComprehension v = true)
      (fun _ => Inside σ m) (Parser.comprehension start closing) := by
  unfold Parser.comprehension
  refine (skipComprehension v).bind fun _ => ?_
  refine ((expectClosing_of hc).pre fun s hs hk => hs.inside (by rw [hk]; rfl)).bind fun _ => ?_
  exact spanFrom_bind fun _ => done

/-- A comprehension, or something else that the bracket closes. -/
theorem comprehensionOr (v : Version) (start : Span) {closing : Operator}
    (hc : closing.isClosing = true) {p : Parser Expr}
    (h : Quiet (Inside (b :: σ) m) (fun _ => Inside σ m) p) :
    Quiet (Inside (b :: σ) m) (fun _ => Inside σ m) (do
      if ← look (Cursor.atComprehension v) then Parser.comprehension start closing else p) := by
  refine look_bind fun found => .ite (fun hfound => ?_) fun _ => h.pre fun s hs => hs.1
  exact (comprehension v start hc).pre fun s hs => ⟨hs.1, hs.2.trans hfound⟩

theorem moreItems (he : ReadExprs m e) (closing : Operator)
    (items : List Expr) : KeepsBrackets m (Parser.moreItems e closing items) := by
  intro σ
  unfold Parser.moreItems
  refine loop_keeps (fun items => ?_) items
  refine (eats_plain rfl σ).bind fun _ => .ite (fun _ => ?_) fun _ => .pure fun _ hs => hs
  refine look_bind_any fun _ => .ite (fun _ => .pure fun _ hs => hs) fun _ => ?_
  exact (starOrExpr he σ).bind fun _ => .pure fun _ hs => hs

theorem yieldExpr (he : ReadExprs m e) (start : Span) :
    KeepsBrackets m (Parser.yieldExpr e start) := by
  intro σ
  unfold Parser.yieldExpr
  refine (eats_plain rfl σ).bind fun _ => .ite (fun _ => ?_) fun _ => ?_
  · exact ((he _).keeps σ).discard.bind fun _ => spanFrom_bind fun _ => done
  · refine look_bind_any fun _ => .ite (fun _ => ?_) fun _ => spanFrom_bind fun _ => done
    exact (starExprs he σ).discard.bind fun _ => spanFrom_bind fun _ => done

theorem parenthesized (v : Version) (he : ReadExprs m e) (start : Span) :
    LeavesBracket m (Parser.parenthesized v e start) := by
  intro b σ
  unfold Parser.parenthesized
  refine eats_closing_bind rfl (spanFrom_bind fun _ => done) ?_
  have hclose : Quiet (Inside (b :: σ) m) (fun _ => Inside σ m) (Parser.expectClosing .rParen) :=
    expectClosing rfl b σ
  refine (eat_plain rfl (b :: σ)).bind fun word => ?_
  cases word with
  | some word =>
    refine (yieldExpr he word.span (b :: σ)).discard.bind fun _ => hclose.bind fun _ => ?_
    exact spanFrom_bind fun _ => done
  | none =>
    refine (starOrExpr he (b :: σ)).bind fun first => comprehensionOr v start rfl ?_
    refine look_bind_any fun _ => .ite (fun _ => ?_) fun _ => hclose.bind fun _ => done
    refine (moreItems he _ _ (b :: σ)).bind fun _ => hclose.bind fun _ => ?_
    exact spanFrom_bind fun _ => done

theorem listDisplay (v : Version) (he : ReadExprs m e) (start : Span) :
    LeavesBracket m (Parser.listDisplay v e start) := by
  intro b σ
  unfold Parser.listDisplay
  refine eats_closing_bind rfl (spanFrom_bind fun _ => done) ?_
  refine (starOrExpr he (b :: σ)).bind fun first => comprehensionOr v start rfl ?_
  refine (moreItems he _ _ (b :: σ)).bind fun _ => ?_
  refine (expectClosing rfl b σ).bind fun _ => ?_
  exact spanFrom_bind fun _ => done

/-- An entry of a dictionary reads a token. Where the colon is missing this is reported. -/
theorem dictEntry (he : ReadExprs m e) :
    Quiet (fun s => Inside σ m s ∧ s.remaining < l + 1)
      (fun entry s => entry ≠ none ∧ Inside σ m s ∧ s.remaining < l) (Parser.dictEntry e) := by
  unfold Parser.dictEntry
  have hkeep : ∀ precedence, Quiet (fun s => Inside σ m s ∧ s.remaining < l)
      (fun _ s => Inside σ m s ∧ s.remaining < l) (e precedence) :=
    fun precedence => ((he precedence).keeps σ).frame
  have hdone : ∀ entry : Expr × Expr, Quiet (fun s => Inside σ m s ∧ s.remaining < l)
      (fun entry s => entry ≠ none ∧ Inside σ m s ∧ s.remaining < l) (Pure.pure (some entry)) :=
    fun entry => .pure fun s hs => ⟨Option.some_ne_none entry, hs⟩
  refine look_bind_any fun start => ?_
  refine eats_bind (fun _ => TokenKind.noConfusion) (fun s hs hkind => ?_) (fun s hs _ => hs)
    ((hkeep _).bind fun _ => hdone _) ?_
  · refine ⟨hs.1.advance (by rw [hkind]; rfl), s.remaining_advance hs.2 ?_⟩
    rw [hkind]
    exact TokenKind.noConfusion
  · refine (he _ σ l).bind fun key => look_bind_any fun token => ?_
    refine (eats_plain rfl σ).frame.bind fun _ => .ite (fun _ => ?_) fun _ => ?_
    · exact (hkeep _).bind fun _ => hdone _
    · refine expected.bind fun _ => unreached fun s => ?_
      exact (Onward.skipToClosing s).trans (Onward.eat _ _)

/-- Entries of a dictionary have been read and the bracket that closes it, or there turn out to be
    none because the `for` of a comprehension comes next. -/
def EntriesRead (v : Version) (b : Bool) (σ : List Bool) (m : Nat)
    (items : Option (List (Expr × Expr))) (s : ParserState) : Prop :=
  (items ≠ none → Inside σ m s) ∧
    (items = none → Inside (b :: σ) m s ∧ s.cursor.atComprehension v = true)

theorem dictEntries (v : Version) (he : ReadExprs m e) :
    Quiet (Inside (b :: σ) m) (EntriesRead v b σ m) (Parser.dictEntries v e) := by
  unfold Parser.dictEntries Parser.moreEntries
  refine loop_reads (I := fun _ => Inside (b :: σ) m) (fun items l => ?_) []
  refine (dictEntry (l := l) he).bind fun entry => ?_
  cases entry with
  -- An entry that is missing has been reported.
  | none => exact .pure fun s hs => absurd rfl hs.1
  | some entry =>
    have hclose : ∀ items : List (Expr × Expr),
        Quiet (fun s => Inside (b :: σ) m s ∧ s.remaining < l)
          (AfterStep (fun _ s => Inside (b :: σ) m s ∧ s.remaining < l) (EntriesRead v b σ m))
          (Parser.expectClosing .rCurly >>= fun _ => (Pure.pure (.finished (some items)) :
            Parser (LoopStep (List (Expr × Expr)) (Option (List (Expr × Expr)))))) := fun items => by
      refine ((expectClosing (m := m) rfl b σ).pre fun s hs => hs.1).bind fun _ => ?_
      exact .pure fun s hs => ⟨fun _ => hs, fun hnone => (Option.some_ne_none _ hnone).elim⟩
    -- A `for` behind the first entry makes a comprehension of the display.
    refine look_bind fun found => .ite (fun hfound => ?_) fun _ => ?_
    · rw [Bool.and_eq_true] at hfound
      refine .pure fun s hs => ⟨fun hsome => absurd rfl hsome, fun _ => ?_⟩
      exact ⟨hs.1.2.1, hs.2.trans hfound.2⟩
    · refine (((eats_plain rfl (b :: σ)).frame (l := l)).pre fun s hs => hs.1.2).bind fun _ => ?_
      refine .ite (fun _ => look_bind_any fun _ => ?_) fun _ => hclose _
      exact .ite (fun _ => hclose _) fun _ => .pure fun s hs => hs

theorem curlyDisplay (v : Version) (he : ReadExprs m e) (start : Span) :
    LeavesBracket m (Parser.curlyDisplay v e start) := by
  intro b σ
  unfold Parser.curlyDisplay
  refine eats_closing_bind rfl (spanFrom_bind fun _ => done) ?_
  refine look_bind_any fun _ => .ite (fun _ => ?_) fun _ => ?_
  · refine (dictEntries v he).bind fun items => ?_
    cases items with
    | some items => exact spanFrom_bind fun _ => .pure fun s hs => hs.1 (Option.some_ne_none items)
    | none => exact (comprehension v start rfl).pre fun s hs => hs.2 rfl
  · refine (starOrExpr he (b :: σ)).bind fun first => comprehensionOr v start rfl ?_
    refine (moreItems he _ _ (b :: σ)).bind fun _ => ?_
    refine (expectClosing rfl b σ).bind fun _ => ?_
    exact spanFrom_bind fun _ => done

/-! ### Subscripts -/

theorem sliceBounds (he : ReadExprs m e) : KeepsBrackets m (Parser.sliceBounds e) := by
  intro σ
  unfold Parser.sliceBounds
  refine loop_keeps (fun _ => ?_) ()
  refine (eats_plain rfl σ).bind fun _ => .ite (fun _ => look_bind_any fun _ => ?_) fun _ => ?_
  · split
    · exact .pure fun _ hs => hs
    · exact .pure fun _ hs => hs
    · exact .pure fun _ hs => hs
    · exact ((he _).keeps σ).discard.bind fun _ => .pure fun _ hs => hs
  · exact .pure fun _ hs => hs

theorem slice (he : ReadExprs m e) (start : Span) :
    KeepsBrackets m (Parser.slice e start) := by
  intro σ
  unfold Parser.slice
  exact (sliceBounds he σ).bind fun _ => spanFrom_bind fun _ => done

theorem subscriptItem (he : ReadExprs m e) :
    KeepsBrackets m (Parser.subscriptItem e) := by
  intro σ
  unfold Parser.subscriptItem
  refine look_bind_any fun start => .ite (fun _ => slice he _ σ) fun _ => ?_
  refine (starOrExpr he σ).bind fun lower => look_bind_any fun _ => ?_
  exact .ite (fun _ => slice he _ σ) fun _ => done

theorem subscriptItems (he : ReadExprs m e) :
    KeepsBrackets m (Parser.subscriptItems e) := by
  intro σ
  unfold Parser.subscriptItems
  refine loop_keeps (fun (items, separated) => ?_) ([], false)
  refine look_bind_any fun _ => .ite (fun _ => .pure fun _ hs => hs) fun _ => ?_
  refine (subscriptItem he σ).bind fun item => (eats_plain rfl σ).bind fun _ => ?_
  exact .ite (fun _ => .pure fun _ hs => hs) fun _ => .pure fun _ hs => hs

theorem subscript (he : ReadExprs m e) : LeavesBracket m (Parser.subscript e) := by
  intro b σ
  unfold Parser.subscript
  refine look_bind_any fun start => (subscriptItems he (b :: σ)).bind fun (items, separated) => ?_
  refine (expectClosing rfl b σ).bind fun _ => ?_
  split
  · exact done
  · exact spanFrom_bind fun _ => done

/-! ### Calls -/

/-- The brackets `σ` are open, unless the line ends. -/
def Midline (σ : List Bool) (m : Nat) (s : ParserState) : Prop :=
  s.cursor.kind.isLineEnd = false → Inside σ m s

theorem positionalArgument (v : Version) (he : ReadExprs m e) :
    Quiet (fun s => Inside (b :: σ) m s ∧ s.remaining < l + 1)
      (fun _ s => Midline (b :: σ) m s ∧ s.remaining < l) (Parser.positionalArgument v e) := by
  unfold Parser.positionalArgument
  refine (he _ (b :: σ) l).bind fun value => look_bind fun found => ?_
  refine .ite (fun hfound => ?_) fun _ => ?_
  · have hskip := (skipComprehension (b := b) (σ := σ) (m := m) v).frame (l := l)
    refine (hskip.pre fun s hs => ⟨⟨hs.1.1, hs.2.trans hfound⟩, hs.1.2⟩).bind fun _ => ?_
    exact spanFrom_bind fun _ => .pure fun s hs => ⟨fun hk => hs.1.inside hk, hs.2⟩
  · exact .pure fun s hs => ⟨fun _ => hs.1.1, hs.1.2⟩

theorem argument (v : Version) (he : ReadExprs m e) :
    Quiet (fun s => Inside (b :: σ) m s ∧ s.remaining < l + 1)
      (fun _ s => Midline (b :: σ) m s ∧ s.remaining < l) (Parser.argument v e) := by
  unfold Parser.argument
  have hvalue : Quiet (fun s => Inside (b :: σ) m s ∧ s.remaining < l + 1)
      (fun _ s => Midline (b :: σ) m s ∧ s.remaining < l) (e .initial) :=
    (he _ (b :: σ) l).post fun _ s hs => ⟨fun _ => hs.1, hs.2⟩
  have hadvance : ∀ token : Token, token.kind.keepsBrackets = true →
      Quiet (fun s => (Inside (b :: σ) m s ∧ s.remaining < l + 1) ∧ s.cursor.peek = token)
        (fun _ s => Inside (b :: σ) m s ∧ s.remaining < l + 1) Parser.advance := fun token hk =>
    ((advance_plain hk).frame).pre fun s hs => ⟨⟨hs.1.1, hs.2⟩, hs.1.2⟩
  refine peek_bind fun token => ?_
  split
  · rename_i hk
    exact (hadvance token (by rw [hk]; rfl)).bind fun _ => hvalue.map
  · rename_i hk
    exact (hadvance token (by rw [hk]; rfl)).bind fun _ => hvalue.map
  · split
    · rename_i name hname
      refine look_bind fun keyword => .ite (fun hkeyword => ?_) fun _ => ?_
      · have hk := keepsBrackets_of_identifier? (Option.isSome_of_eq_some hname)
        -- The equals sign behind the name has been seen as well, so it may be read too.
        have hfirst : Quiet
            (fun s => ((Inside (b :: σ) m s ∧ s.remaining < l + 1) ∧ s.cursor.peek = token)
              ∧ (s.cursor.kindAt 1 == .equal) = keyword)
            (fun _ s => (Inside (b :: σ) m s ∧ s.remaining < l + 1) ∧ s.cursor.kind = .equal)
            Parser.advance := by
          have hkind : ∀ s : ParserState, s.cursor.peek = token →
              s.cursor.kind.keepsBrackets = true := fun s hs => by rw [Cursor.kind_eq, hs, hk]
          refine advance (fun s hs => ?_) fun s hs => ⟨⟨?_, ?_⟩, ?_⟩
          · exact Cursor.not_atLexicalError
              (TokenKind.ne_error_of_keepsBrackets (hkind s hs.1.2))
          · exact hs.1.1.1.advance (hkind s hs.1.2)
          · exact Nat.lt_of_le_of_lt (Onward.advance s).remaining_le hs.1.1.2
          · rw [Cursor.kind_advance]
            exact eq_of_beq (hs.2.trans hkeyword)
        refine hfirst.bind fun _ => (advance_kind (fun _ => TokenKind.noConfusion)
          (fun s hs => hs.2) fun s hs => ⟨?_, ?_⟩).bind fun _ => hvalue.map
        · exact hs.1.1.advance (by rw [hs.2]; rfl)
        · exact Nat.lt_of_le_of_lt (Onward.advance s).remaining_le hs.1.2
      · exact (positionalArgument v he).pre fun s hs => hs.1.1
    · exact (positionalArgument v he).pre fun s hs => hs.1

theorem callArguments (v : Version) (he : ReadExprs m e) :
    LeavesBracket m (Parser.callArguments v e) := by
  intro b σ
  unfold Parser.callArguments Parser.moreArguments
  refine loop_reads (I := fun _ => Inside (b :: σ) m) (K := fun _ => Inside σ m)
    (fun arguments l => ?_) []
  refine look_bind fun next => .ite (fun hclose => ?_) fun _ => .ite (fun hcomma => ?_) fun _ => ?_
  -- The closing parenthesis, a comma, or another argument comes next.
  · have hk : ∀ s : ParserState, s.cursor.kind = next → s.cursor.kind = .operator .rParen :=
      fun s hs => hs.trans (eq_of_beq hclose)
    exact (advance_kind (K := Inside σ m) (fun _ => TokenKind.noConfusion) (fun s hs => hk s hs.2)
      fun s hs => hs.1.1.advance_closing (hk s hs.2) rfl).bind fun _ => .pure fun _ hs => hs
  · rw [Bool.and_eq_true] at hcomma
    have hk : ∀ s : ParserState, s.cursor.kind = next → s.cursor.kind = .operator .comma :=
      fun s hs => hs.trans (eq_of_beq hcomma.1)
    refine (advance_kind (K := fun s => Inside (b :: σ) m s ∧ s.remaining < l)
      (fun _ => TokenKind.noConfusion) (fun s hs => hk s hs.2) fun s hs => ?_).bind fun _ =>
        .pure fun _ hs => hs
    refine ⟨hs.1.1.advance (by rw [hk s hs.2]; rfl), s.remaining_advance hs.1.2 ?_⟩
    rw [hk s hs.2]
    exact TokenKind.noConfusion
  · refine ((argument v he).pre fun s hs => hs.1).bind fun item => peek_bind fun token => ?_
    have hagain : ∀ s : ParserState, token.kind.isLineEnd = false →
        (Midline (b :: σ) m s ∧ s.remaining < l) ∧ s.cursor.peek = token →
        Inside (b :: σ) m s ∧ s.remaining < l := fun s hend hs =>
      ⟨hs.1.1 (by rw [Cursor.kind_eq, hs.2, hend]), hs.1.2⟩
    -- Before a comma or a parenthesis the line has not ended, so the brackets are as they were.
    split
    · rename_i hk
      exact .pure fun s hs => hagain s (by rw [hk]; rfl) hs
    · rename_i hk
      exact .pure fun s hs => hagain s (by rw [hk]; rfl) hs
    · refine expected.bind fun _ => unreached fun s => ?_
      exact (Onward.skipToClosing s).trans (Onward.eat _ _)

/-! ### Operands -/

theorem unary (he : ReadExprs m e) (op : UnaryOp) (precedence : Precedence)
    (start : Span) : KeepsBrackets m (Parser.unary e op precedence start) := by
  intro σ
  unfold Parser.unary
  exact ((he _).keeps σ).bind fun _ => done

/-- The parameters of a lambda have been read in part and left `depth` brackets open. The rest is
    passed over. -/
def InParameters (σ : List Bool) (m depth : Nat) (s : ParserState) : Prop :=
  (∃ inner, inner.length = depth ∧ Inside (inner ++ σ) m s)
    ∧ ∀ n < Cursor.parametersDistance depth s.cursor.after,
      passesOver s.cursor.before s.cursor.after n = true

theorem InParameters.start {token : Token} {s : ParserState} (h : Behind token σ m s)
    (hk : token.kind = .keyword .lambda) : InParameters σ m 0 s := by
  refine ⟨⟨[], rfl, h.inside (by rw [hk]; rfl)⟩, fun n hn => ?_⟩
  obtain ⟨before, hbefore, -, -⟩ := h
  rw [hbefore]
  refine passesOver_behind ?_
  simpa only [passedBehind, hk] using hn

/-- A token before the end of the parameters is read. -/
theorem advance_parameters {depth depth' : Nat} {token : Token} (hne : token.kind ≠ .eof)
    (hdistance : ∀ ts, Cursor.parametersDistance depth (token :: ts)
      = Cursor.parametersDistance depth' ts + 1)
    (hopen : ∀ inner s, inner.length = depth → Behind token (inner ++ σ) m s →
      ∃ inner', inner'.length = depth' ∧ Inside (inner' ++ σ) m s) :
    Quiet (fun s => (InParameters σ m depth s ∧ s.remaining < l + 1) ∧ s.cursor.peek = token)
      (fun _ s => InParameters σ m depth' s ∧ s.remaining < l) Parser.advance := by
  have hafter : ∀ s : ParserState, s.cursor.peek = token → ∃ ts, s.cursor.after = token :: ts := by
    intro s hpeek
    cases hafter : s.cursor.after with
    | nil =>
      rw [Cursor.peek, Cursor.peekNth, hafter] at hpeek
      exact absurd (hpeek ▸ rfl) hne
    | cons t ts =>
      rw [Cursor.peek_of_after hafter] at hpeek
      exact ⟨ts, by rw [hpeek]⟩
  have hpassed : ∀ s ts, InParameters σ m depth s → s.cursor.after = token :: ts →
      ∀ n < Cursor.parametersDistance depth' ts + 1,
        passesOver s.cursor.before (token :: ts) n = true := by
    intro s ts h hts n hn
    rw [← hdistance] at hn
    rw [← hts] at hn ⊢
    exact h.2 n hn
  -- The token itself is the first of those passed over, the others stay so behind it.
  refine advance (fun s hs => ?_) fun s hs => ?_
  · obtain ⟨ts, hts⟩ := hafter s hs.2
    refine Cursor.not_atLexicalError_of_passes (n := 0) ?_
    rw [hts]
    exact hpassed s ts hs.1.1 hts 0 (Nat.succ_pos _)
  · obtain ⟨ts, hts⟩ := hafter s hs.2
    have hk : s.cursor.kind ≠ .eof := by rw [Cursor.kind_eq, hs.2]; exact hne
    obtain ⟨inner, hlength, hinside⟩ := hs.1.1.1
    have hbehind := hinside.behind hk
    rw [hs.2] at hbehind
    refine ⟨⟨hopen inner _ hlength hbehind, fun n hn => ?_⟩, s.remaining_advance hs.1.2 hk⟩
    simp only [Cursor.advance_of_after hts] at hn ⊢
    exact passesOver_step (hpassed s ts hs.1.1 hts (n + 1) (Nat.succ_lt_succ hn))

/-- The parameters of a lambda are passed over. -/
theorem lambdaParameters {token : Token} (hk : token.kind = .keyword .lambda) :
    Quiet (Behind token σ m) (fun _ => Inside σ m) Parser.lambdaParameters := by
  unfold Parser.lambdaParameters
  refine (loop_reads (I := InParameters σ m) (K := fun _ => Inside σ m) (fun depth l => ?_) 0).pre
    fun s hs => .start hs hk
  refine peek_bind fun token => ?_
  split
  · exact expected.bind fun _ => .pure fun _ hs => hs.elim
  · exact expected.bind fun _ => .pure fun _ hs => hs.elim
  · rename_i op hop
    have hne : token.kind ≠ .eof := by rw [hop]; exact TokenKind.noConfusion
    -- The colon outside of brackets ends the parameters. Other brackets and colons belong to them.
    refine .ite (fun hcolon => ?_) fun hcolon => ?_
    · rw [Bool.and_eq_true] at hcolon
      obtain rfl : depth = 0 := eq_of_beq hcolon.2
      have hplain : token.kind.keepsBrackets = true := by rw [hop, eq_of_beq hcolon.1]; rfl
      refine ((advance_plain hplain).pre fun s hs => ⟨?_, hs.2⟩).bind fun _ => .pure fun _ hs => hs
      obtain ⟨inner, hlength, hinside⟩ := hs.1.1.1
      rwa [List.length_eq_zero_iff.1 hlength] at hinside
    · refine .ite (fun hopening => ?_) fun hopening => .ite (fun hclosing => ?_) fun hclosing => ?_
      · refine (advance_parameters hne (fun ts => ?_) fun inner s hlength hs => ?_).bind fun _ =>
          .pure fun _ hs => hs
        · simp only [Cursor.parametersDistance, hop, hopening, if_neg hcolon, if_true]
        · obtain ⟨b, hinside⟩ := hs.opened hop hopening
          exact ⟨b :: inner, by rw [List.length_cons, hlength], hinside⟩
      -- A closing bracket needs one to close: where `depth` is zero it is reported.
      · refine .ite (fun _ => expected.bind fun _ => .pure fun _ hs => hs.elim) fun hdepth => ?_
        obtain ⟨depth, rfl⟩ : ∃ d, depth = d + 1 :=
          Nat.exists_eq_succ_of_ne_zero fun hzero => hdepth (beq_iff_eq.2 hzero)
        refine (advance_parameters hne (fun ts => ?_) fun inner s hlength hs => ?_).bind fun _ =>
          .pure fun _ hs => hs
        · simp only [Cursor.parametersDistance, hop, hclosing, if_neg hcolon, if_neg hopening,
            if_true]
          rfl
        · cases inner with
          | nil => cases hlength
          | cons b inner => exact ⟨inner, Nat.succ.inj hlength, hs.closed hop hclosing⟩
      · refine (advance_parameters hne (fun ts => ?_) fun inner s hlength hs => ?_).bind fun _ =>
          .pure fun _ hs => hs
        · simp only [Cursor.parametersDistance, hop, if_neg hcolon, if_neg hopening,
            if_neg hclosing]
        · exact ⟨inner, hlength, hs.inside (by
            simp [TokenKind.keepsBrackets, hop, hopening, hclosing])⟩
  · rename_i hnewline heof hoperator
    refine (advance_parameters heof (fun ts => ?_) fun inner s hlength hs => ?_).bind fun _ =>
      .pure fun _ hs => hs
    · rw [Cursor.parametersDistance.eq_def]
      dsimp only
      split
      · exact absurd ‹_› heof
      · exact absurd ‹_› hnewline
      · exact absurd ‹_› (hoperator _)
      · rfl
    · obtain ⟨before, hbefore, hopen, hlt⟩ := hs
      refine ⟨inner, hlength, ?_, hlt⟩
      rw [hbefore, openBrackets_word hnewline hoperator, hopen]

theorem lambda (he : ReadExprs m e) {token : Token}
    (hk : token.kind = .keyword .lambda) (start : Span) :
    Quiet (Behind token σ m) (fun _ => Inside σ m) (Parser.lambda e start) := by
  unfold Parser.lambda
  refine (lambdaParameters hk).bind fun _ => .ite (fun _ => ?_) fun _ => spanFrom_bind fun _ => done
  exact ((he _).keeps σ).bind fun _ => done

theorem backquoted (he : ReadExprs m e) (start : Span) :
    KeepsBrackets m (Parser.backquoted e start) := by
  intro σ
  unfold Parser.backquoted
  refine (starExprs he σ).discard.bind fun _ => look_bind_any fun token => ?_
  refine (eats_plain rfl σ).bind fun _ => .ite (fun _ => ?_) fun _ => spanFrom_bind fun _ => done
  exact expected.bind fun _ => spanFrom_bind fun _ => .pure fun _ hs => hs.elim

theorem moreStrings (first : Token) : KeepsBrackets m (Parser.moreStrings first) := by
  intro σ
  unfold Parser.moreStrings
  refine loop_keeps (fun (value, span) => peek_bind fun token => ?_) _
  split
  · rename_i hk
    exact (advance_plain (by rw [hk]; rfl)).bind fun _ => .pure fun _ hs => hs
  · exact .pure fun _ hs => hs.1

theorem operandAfter (v : Version) (he : ReadExprs m e) (token : Token) :
    Quiet (Behind token σ m) (fun _ => Inside σ m) (Parser.operandAfter v e token) := by
  -- What follows a token that is no bracket, and what follows an opening bracket.
  have plain : ∀ {p : Parser Expr} {k : TokenKind}, token.kind = k → k.keepsBrackets = true →
      KeepsBrackets m p → Quiet (Behind token σ m) (fun _ => Inside σ m) p := fun hk hplain h =>
    (h σ).pre fun s hs => hs.inside (by rw [hk, hplain])
  have opened : ∀ {p : Parser Expr} {op : Operator}, token.kind = .operator op →
      op.isOpening = true → LeavesBracket m p → Quiet (Behind token σ m) (fun _ => Inside σ m) p :=
    fun hk hop h => (exists_pre fun b => h b σ).pre fun s hs => hs.opened hk hop
  have literal : ∀ {a : Expr}, KeepsBrackets m (Pure.pure a : Parser Expr) := fun _ => done
  unfold Parser.operandAfter
  split
  · rename_i hk
    exact plain hk rfl fun σ => (moreStrings token σ).bind fun _ => done
  · rename_i hk
    exact plain hk rfl literal
  · rename_i hk
    exact plain hk rfl literal
  · rename_i hk
    exact plain hk rfl literal
  · rename_i hk
    exact plain hk rfl literal
  · rename_i hk
    exact plain hk rfl literal
  · rename_i hk
    exact plain hk rfl literal
  · rename_i hk
    exact plain hk rfl literal
  · rename_i hk
    exact opened hk rfl (parenthesized v he _)
  · rename_i hk
    exact opened hk rfl (listDisplay v he _)
  · rename_i hk
    exact opened hk rfl (curlyDisplay v he _)
  · rename_i hk
    exact plain hk rfl (unary he _ _ _)
  · rename_i hk
    exact plain hk rfl (unary he _ _ _)
  · rename_i hk
    exact plain hk rfl (unary he _ _ _)
  · rename_i hk
    exact plain hk rfl (unary he _ _ _)
  · rename_i hk
    exact plain hk rfl (unary he _ _ _)
  · rename_i hk
    exact plain hk rfl (starred he token)
  · rename_i hk
    exact lambda he hk _
  · rename_i hk
    exact plain hk rfl (yieldExpr he _)
  · rename_i hk
    exact plain hk rfl (backquoted he _)
  · exact report.bind fun _ => .pure fun _ hs => hs.elim
  · exact expected.bind fun _ => .pure fun _ hs => hs.elim

/-- Where an operand should be, a lexical error is reported. -/
theorem operandAfter_error (v : Version) {token : Token} {cause : LexError}
    (hk : token.kind = .error cause) :
    Quiet (fun _ => True) (fun _ _ => False) (Parser.operandAfter v e token) := by
  unfold Parser.operandAfter
  simp only [hk]
  exact report.bind fun _ => .pure fun _ hs => hs

/-- An operand is a token at least. -/
theorem operand (v : Version) (he : ReadExprs m e) :
    Quiet (fun s => Inside σ (m + 1) s ∧ s.remaining < l + 1)
      (fun _ s => Inside σ m s ∧ s.remaining < l) (Parser.operand v e) := by
  have hread : ∀ token : Token, token.kind ≠ .eof → (∀ cause, token.kind ≠ .error cause) →
      Quiet (fun s => (Inside σ (m + 1) s ∧ s.remaining < l + 1) ∧ s.cursor.peek = token)
        (fun _ s => Behind token σ m s ∧ s.remaining < l) Parser.advance := by
    intro token heof herror
    have hkind : ∀ s : ParserState, s.cursor.peek = token → s.cursor.kind = token.kind :=
      fun s hs => by rw [Cursor.kind_eq, hs]
    refine advance (fun s hs => ?_) fun s hs => ?_
    · exact Cursor.not_atLexicalError_of_kind (hkind s hs.2) herror
    · have hne : s.cursor.kind ≠ .eof := by rw [hkind s hs.2]; exact heof
      exact ⟨hs.2 ▸ hs.1.1.behind_succ hne, s.remaining_advance hs.1.2 hne⟩
  unfold Parser.operand
  refine peek_bind fun token => ?_
  split
  · rename_i ident hident
    have hk := keepsBrackets_of_identifier? (Option.isSome_of_eq_some hident)
    have hname := hread token (TokenKind.ne_eof_of_keepsBrackets hk)
      (TokenKind.ne_error_of_keepsBrackets hk)
    refine look_bind_any fun _ => .ite (fun _ => ?_) fun _ => ?_
    · refine hname.bind fun _ => (unary he _ _ _ σ).frame.pre fun s hs => ?_
      exact ⟨hs.1.inside hk, hs.2⟩
    · exact hname.bind fun _ => .pure fun s hs => ⟨hs.1.inside hk, hs.2⟩
  · refine .ite (fun _ => expected.bind fun _ => .pure fun _ hs => hs.elim) fun hends => ?_
    -- A lexical error is read like any other token here, but the report about it follows.
    by_cases herror : ∃ cause, token.kind = .error cause
    · obtain ⟨cause, hk⟩ := herror
      exact bind_reports Onward.advance fun _ => operandAfter_error v hk
    · refine (hread token (fun heof => ?_) fun cause hk => herror ⟨cause, hk⟩).bind fun _ =>
        (operandAfter v he token).frame
      rw [heof] at hends
      exact hends rfl

/-! ### Continuations -/

theorem conditional (he : ReadExprs m e) (start : Span) :
    KeepsBrackets m (Parser.conditional e start) := by
  intro σ
  unfold Parser.conditional
  refine ((he _).keeps σ).discard.bind fun _ => look_bind_any fun token => ?_
  refine (eats_plain rfl σ).bind fun _ => .ite (fun _ => ?_) fun _ => ?_
  · exact ((he _).keeps σ).discard.bind fun _ => spanFrom_bind fun _ => done
  · exact expected.bind fun _ => spanFrom_bind fun _ => .pure fun _ hs => hs.elim

/-- What the tokens that announce a continuation do to the brackets: calls and subscripts begin
    with an opening bracket, and no others have brackets among their tokens. -/
def Announces (first second : TokenKind) : Continuation → Prop
  | .call => first = .operator .lParen
  | .subscript => first = .operator .lBracket
  | other => first.keepsBrackets = true ∧ (other.width = 2 → second.keepsBrackets = true)

theorem announces_of_ofKinds? {first second : TokenKind} {continuation : Continuation}
    (h : Continuation.ofKinds? first second = some continuation) :
    Announces first second continuation := by
  unfold Continuation.ofKinds? at h
  split at h
  all_goals first
    | (cases h; rfl)
    | (cases h; exact ⟨rfl, fun hwidth => by cases hwidth⟩)
    | skip
  -- Only `not in` and `is not` have a second token.
  · split at h
    · rename_i hin
      cases h
      exact ⟨rfl, fun _ => by rw [hin]; rfl⟩
    · cases h
  · split at h
    · rename_i hnot
      cases h
      exact ⟨rfl, fun _ => by rw [hnot]; rfl⟩
    · cases h
      exact ⟨rfl, fun hwidth => by cases hwidth⟩
  · rename_i op _ _ _ _
    obtain ⟨precedence, hprecedence, rfl⟩ := Option.map_eq_some_iff.1 h
    refine ⟨?_, fun hwidth => by cases hwidth⟩
    cases op <;> first | rfl | cases hprecedence
  · cases h

theorem continued (v : Version) (he : ReadExprs m e) (lhs : Expr)
    (token : Token) (continuation : Continuation) :
    Quiet (fun s => Behind token σ m s
        ∧ Continuation.ofKinds? token.kind s.cursor.kind = some continuation)
      (fun _ => Inside σ m) (Parser.continued v e lhs token continuation) := by
  have keep : ∀ precedence, Quiet (Inside σ m) (fun _ => Inside σ m) (e precedence) :=
    fun precedence => (he precedence).keeps σ
  unfold Parser.continued
  split
  · refine ((exists_pre fun b => callArguments v he b σ).pre fun s hs => ?_).bind fun _ =>
      spanFrom_bind fun _ => done
    exact hs.1.opened (announces_of_ofKinds? hs.2) rfl
  · refine ((exists_pre fun b => subscript he b σ).pre fun s hs => ?_).bind fun _ =>
      spanFrom_bind fun _ => done
    exact hs.1.opened (announces_of_ofKinds? hs.2) rfl
  · refine expectIdentifier_bind (K := Inside σ m) (fun s hs hname => ?_) (fun attr => done)
      fun s => .refl s
    have hinside := hs.1.inside (announces_of_ofKinds? hs.2).1
    exact hinside.advance (keepsBrackets_of_identifier? hname)
  · exact (conditional he _ σ).pre fun s hs => hs.1.inside (announces_of_ofKinds? hs.2).1
  · refine ((keep _).pre fun s hs => ?_).bind fun _ => done
    exact hs.1.inside (announces_of_ofKinds? hs.2).1
  · rename_i op
    refine .ite (fun hwidth => ?_) fun _ => ?_
    · refine (advance (K := Inside σ m) (fun s hs => ?_) fun s hs => ?_).bind fun _ =>
        (keep _).bind fun _ => done
      · have hsecond := (announces_of_ofKinds? hs.2).2 (eq_of_beq hwidth)
        exact Cursor.not_atLexicalError (TokenKind.ne_error_of_keepsBrackets hsecond)
      · have hkinds := announces_of_ofKinds? hs.2
        have hinside := hs.1.inside hkinds.1
        exact hinside.advance (hkinds.2 (eq_of_beq hwidth))
    · refine ((keep _).pre fun s hs => ?_).bind fun _ => done
      exact hs.1.inside (announces_of_ofKinds? hs.2).1

/-- No continuation comes next that holds an operand more tightly than the precedence. -/
def Complete (precedence : Precedence) (s : ParserState) : Prop :=
  ∀ continuation, s.cursor.continuation? = some continuation →
    continuation.precedence ≤ precedence

theorem continuations (v : Version) (he : ReadExprs m e)
    (precedence : Precedence) (lhs : Expr) :
    Quiet (Inside σ m) (fun _ s => Inside σ m s ∧ Complete precedence s)
      (Parser.continuations v e precedence lhs) := by
  unfold Parser.continuations
  refine loop_reads (I := fun _ => Inside σ m)
    (K := fun _ s => Inside σ m s ∧ Complete precedence s)
    (fun lhs l => look_bind fun continuation => ?_) lhs
  cases continuation with
  | none =>
    refine .pure fun s hs => ⟨hs.1.1, fun continuation h => ?_⟩
    rw [hs.2] at h
    cases h
  | some continuation =>
    refine .ite (fun hle => .pure fun s hs => ⟨hs.1.1, fun continuation' h => ?_⟩) fun _ => ?_
    · rw [hs.2] at h
      obtain rfl := Option.some_inj.1 h
      exact hle
    · have hnext : Quiet
          (fun s => (Inside σ m s ∧ s.remaining < l + 1)
            ∧ s.cursor.continuation? = some continuation)
          (fun token s => (Behind token σ m s
            ∧ Continuation.ofKinds? token.kind s.cursor.kind = some continuation)
            ∧ s.remaining < l) Parser.next := by
        have hne : ∀ s : ParserState, s.cursor.continuation? = some continuation →
            s.cursor.kind ≠ .eof ∧ ∀ cause, s.cursor.kind ≠ .error cause := by
          intro s hs
          constructor
          · intro hk
            rw [Cursor.continuation?, hk] at hs
            cases hs
          · intro cause hk
            rw [Cursor.continuation?, hk] at hs
            cases hs
        refine next (fun s hs => ?_) fun s hs => ⟨⟨?_, ?_⟩, ?_⟩
        · exact Cursor.not_atLexicalError (hne s hs.2).2
        · exact hs.1.1.behind (hne s hs.2).1
        · rw [Cursor.kind_advance]
          exact hs.2
        · exact s.remaining_advance hs.1.2 (hne s hs.2).1
      refine hnext.bind fun token => ?_
      show Quiet _ _ (Parser.continued v e lhs token continuation >>= fun lhs =>
        Pure.pure (LoopStep.again lhs))
      exact (continued v he lhs token continuation).frame.bind fun _ => .pure fun _ hs => hs

/-- One expression, given a parser of the expressions in it. -/
theorem exprWith (v : Version) (he : ReadExprs m e)
    (precedence : Precedence) :
    Quiet (fun s => Inside σ (m + 1) s ∧ s.remaining < l + 1)
      (fun _ s => (Inside σ m s ∧ Complete precedence s) ∧ s.remaining < l)
      (Parser.exprWith v e precedence) := by
  unfold Parser.exprWith
  exact (operand v he).bind fun lhs => (continuations v he precedence lhs).frame

/-- An expression reads a token, leaves the brackets as they are and goes as far as it can. -/
theorem parseExpr_complete (v : Version) (precedence : Precedence) :
    Quiet (fun s => Inside σ m s ∧ s.remaining < l + 1)
      (fun _ s => (Inside σ m s ∧ Complete precedence s) ∧ s.remaining < l)
      (Parser.parseExpr v precedence) := by
  suffices ∀ n, ∀ precedence s, s.remaining = n →
      Onward s (Parser.parseExpr v precedence s).2 ∧
        ∀ m σ l, Inside σ m s ∧ s.remaining < l + 1 →
          (Parser.parseExpr v precedence s).2.errors = s.errors →
          Unharmed s (Parser.parseExpr v precedence s).2
            ∧ (Inside σ m (Parser.parseExpr v precedence s).2
              ∧ Complete precedence (Parser.parseExpr v precedence s).2)
            ∧ (Parser.parseExpr v precedence s).2.remaining < l from
    ⟨fun s => (this _ precedence s rfl).1, fun s => (this _ precedence s rfl).2 m σ l⟩
  intro n
  induction n using Nat.strongRecOn with
  | ind n ih =>
    intro precedence s hn
    have he : ∀ inner, ReadsToken s.remaining (Parser.nested s.remaining (.error s.cursor.peek.span)
        fun t _ => Parser.parseExpr v inner t) := by
      intro inner σ l
      refine nested (fun t hlt => (ih _ (hn ▸ hlt) inner t rfl).1) (fun t hlt ht hsame => ?_)
        fun t ht hle => absurd ht.1.2 (Nat.not_lt_of_le hle)
      obtain ⟨hunharmed, hinside, hless⟩ := (ih _ (hn ▸ hlt) inner t rfl).2 _ σ l ht hsame
      exact ⟨hunharmed, hinside.1, hless⟩
    rw [Parser.parseExpr]
    refine ⟨(exprWith (σ := []) (l := 0) v he precedence).onward s, fun m σ l hi hsame => ?_⟩
    obtain ⟨hunharmed, ⟨hinside, hcomplete⟩, hlt⟩ :=
      (exprWith (σ := σ) (l := l) v he precedence).silent s
        ⟨⟨hi.1.1, Nat.lt_succ_self _⟩, hi.2⟩ hsame
    exact ⟨hunharmed, ⟨hinside.mono (Nat.le_of_lt hi.1.2), hcomplete⟩, hlt⟩

theorem parseExpr (v : Version) (precedence : Precedence) :
    ReadsToken m (Parser.parseExpr v precedence) :=
  fun _ _ => (parseExpr_complete v precedence).post fun _ _ hs => ⟨hs.1.1, hs.2⟩

theorem expression (v : Version) : KeepsBrackets m (Parser.expression v) :=
  (parseExpr v _).keeps

/-- Behind an expression no opening parenthesis comes next, since it would begin a call. -/
theorem expression_ne_lParen (v : Version) :
    Quiet (Inside σ m) (fun _ s => Inside σ m s ∧ s.cursor.kind ≠ .operator .lParen)
      (Parser.expression v) where
  onward := (expression v σ (m := m)).onward
  silent s hs hsame := by
    obtain ⟨hunharmed, ⟨hinside, hcomplete⟩, -⟩ :=
      (parseExpr_complete v .initial).silent s ⟨hs, Nat.lt_succ_self _⟩ hsame
    refine ⟨hunharmed, hinside, fun hk => ?_⟩
    have hcall : (Parser.expression v s).2.cursor.continuation? = some .call := by
      rw [Cursor.continuation?, hk]
      rfl
    exact absurd (hcomplete _ hcall) (by decide)

theorem starExpressions (v : Version) : KeepsBrackets m (Parser.starExpressions v) :=
  starExprs fun _ => parseExpr v _

end Quiet

end PyAtlas
