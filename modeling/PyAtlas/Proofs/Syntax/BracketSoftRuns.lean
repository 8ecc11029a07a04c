import PyAtlas.Proofs.Syntax.ExprPlacing
import PyAtlas.Proofs.Syntax.ListSoftRuns

/-!
# Brackets with two words reserved and without

Between brackets there may be a comprehension. An asynchronous one begins with a word that is read
as a name where it is not reserved, but what belongs to a comprehension is passed over up to the
closing bracket, so both runs are at the same place again. Without a comprehension the closing
bracket is missed in front of a reserved word, and this is reported.

## Key results
- `InStep.comprehensionOr`: behind an expression in brackets both runs go on together.
- `InStep.parenthesized`, `InStep.listDisplay`, `InStep.curlyDisplay`: displays are the same.
- `InStep.subscript`, `InStep.callArguments`: so is what stands behind a value.
-/

namespace PyAtlas

open PyAtlas.Parser

variable {source : String} {m : Nat} {v : Version} {s u : ParserState}

/-! ### Comprehensions -/

namespace Cursor

/-- What is passed over up to a closing bracket may begin with a token that is no bracket. -/
theorem skipToClosing_advance {c : Cursor} (hk : c.kind.keepsBrackets = true) :
    c.advance.skipToClosing = c.skipToClosing := by
  cases hafter : c.after with
  | nil => rw [advance_of_nil hafter]
  | cons t ts =>
    rw [kind_eq, peek_of_after hafter] at hk
    rw [skipToClosing, skipToClosing, hafter, closingDistance_keep hk, advanceBy,
      advance_of_after hafter]

end Cursor

namespace Waiting

/-- Both runs pass over the rest of the comprehension. -/
theorem skipToClosing (h : Waiting source m s u) :
    Softer source m (s.move Cursor.skipToClosing) (u.move Cursor.skipToClosing) := by
  have hskip : (s.move Cursor.advance).move Cursor.skipToClosing = s.move Cursor.skipToClosing :=
    congrArg (ParserState.mk · s.errors)
      (Cursor.skipToClosing_advance (by rw [h.atAsync]; rfl))
  rw [← hskip]
  exact h.softer.move Cursor.skipToClosing_soften fun _ => ⟨_, rfl⟩

theorem atComprehension (h : Waiting source m s u) : s.cursor.atComprehension .v37 = true := by
  have hasync : s.cursor.kind = .keyword .async := h.atAsync
  have hkind : s.cursor.kindAt 0 = .keyword .async := h.atAsync
  simp [Cursor.atComprehension, Cursor.atAsync, hasync, hkind, h.next]

theorem atComprehension_soft (h : Waiting source m s u) : u.cursor.atComprehension v = true := by
  rw [Cursor.atComprehension, h.kind_eq_for]
  rfl

end Waiting

theorem Lost.atComprehension (h : Lost s) : s.cursor.atComprehension .v37 = false := by
  have hasync : s.cursor.kind = .keyword .async := h.1
  simp [Cursor.atComprehension, hasync, h.2]

/-- Where something is missing in brackets the rest of them is passed over. -/
theorem Parser.onward_passOver {α : Type} (closing : Operator) (a : α) (s : ParserState) :
    Onward s ((skipToClosing >>= fun _ => Functor.discard (eat (.operator closing)) >>= fun _ =>
      pure a) s).2 :=
  (Onward.skipToClosing s).trans (Onward.eat _ _)

/-- Where the closing bracket is missing this is reported. -/
theorem Leads.expectClosing {closing : Operator} {D : ParserState → Prop}
    (hD : ∀ s, D s → s.cursor.kind ≠ .operator closing) :
    Leads D (fun _ => Nowhere) (Parser.expectClosing closing) := by
  unfold Parser.expectClosing
  exact .look_any fun token => .eats_bind hD (.expected_bind (onward_passOver closing ()))

namespace InStep

theorem expectClosing (closing : Operator) :
    InStep source m Nowhere (Parser.expectClosing closing) (Parser.expectClosing closing) := by
  unfold Parser.expectClosing
  exact .peek_any fun token => .eats_bind rfl .done (.expected_bind (onward_passOver closing ()))

/-- The closing bracket ends a production whose result begins where the bracket was opened. -/
theorem close (closing : Operator) (start : Span) (φ : Span → Expr) :
    InStep source m Nowhere
      (Parser.expectClosing closing >>= fun _ => spanFrom start >>= fun span => pure (φ span))
      (Parser.expectClosing closing >>= fun _ => spanFrom start >>= fun span => pure (φ span)) :=
  (expectClosing closing).bind_all fun _ => .spanFrom_bind start fun _ => .done

/-- The rest of a comprehension is passed over, also where its first word has been read as a
    name. -/
theorem comprehension (start : Span) (closing : Operator) :
    Mirrors (fun _ => Nowhere) (fun s u => Softer source m s u ∨ Waiting source m s u)
      (Agree source m) (Parser.comprehension start closing)
      (Parser.comprehension start closing) := by
  unfold Parser.comprehension
  refine .move_bind Onward.skipToClosing (fun s u hs => ?_) (close closing start .other)
  rcases hs with hs | hs
  · exact hs.move Cursor.skipToClosing_soften fun _ => ⟨_, rfl⟩
  · exact hs.skipToClosing

/-- A comprehension, or something else that begins with the same expression. -/
theorem comprehensionOr (hv : v.hasSoftAsync = true) (start : Span) (closing : Operator)
    {R : Expr → Expr → Prop} {q p : Parser Expr} (h : Ends source m R q p)
    {f g : Expr → Parser Expr} (hsame : ∀ a, InStep source m Nowhere (f a) (g a))
    (hlost : ∀ a, Leads AtAsync (fun _ => Nowhere) (f a)) :
    InStep source m Nowhere
      (q >>= fun a => do
        if ← look (Cursor.atComprehension .v37) then Parser.comprehension start closing else f a)
      (p >>= fun a => do
        if ← look (Cursor.atComprehension v) then Parser.comprehension start closing
        else g a) := by
  refine Ends.bind h (fun a => .look_any (fun s u hs => ?_) fun found => ?_)
    (fun a b s u _ hs => ?_) fun a s hs => ?_
  · rw [hs.cursor_eq, Cursor.atComprehension_soften hv hs.reserving]
  · exact .ite (fun _ => (comprehension start closing).pre fun _ _ hs => .inl hs) fun _ => hsame a
  -- Here one run is before `async` and the other one is before `for`.
  · rw [Sim.look_bind, Sim.look_bind, hs.atComprehension, hs.atComprehension_soft]
    exact (comprehension start closing).run s u (.inr hs)
  · rw [Sim.look_bind, hs.atComprehension]
    exact hlost a s hs.1

end InStep

/-! ### Displays -/

theorem Parser.itemStep_done {e : ExprParser} (closing : Operator) (items : List Expr)
    (hk : s.cursor.kind ≠ .operator .comma) :
    Parser.itemStep e closing items s = (.finished items, s) := by
  rw [Parser.itemStep, eats_bind_of_ne hk]
  rfl

/-- A bracket that has to be closed is missed in front of a reserved word. -/
theorem Leads.close {closing : Operator} (start : Span) (φ : Span → Expr) :
    Leads AtAsync (fun _ => Nowhere) (Parser.expectClosing closing >>= fun _ =>
      spanFrom start >>= fun span => Pure.pure (φ span)) :=
  (expectClosing fun _ (hs : AtAsync _) => hs.ne rfl).bind_nowhere fun _ s => .refl s

/-- It is also missed where further items might come before it. -/
theorem Leads.closeItems {e : ExprParser} {closing : Operator} (start : Span) (items : List Expr)
    (φ : List Expr → Span → Expr) :
    Leads AtAsync (fun _ => Nowhere) (Parser.moreItems e closing items >>= fun items =>
      Parser.expectClosing closing >>= fun _ => spanFrom start >>= fun span =>
        Pure.pure (φ items span)) := by
  intro s hs
  have hdone : Parser.moreItems e closing items s = (items, s) := by
    rw [moreItems, loop_eq, itemStep_done closing items (hs.ne rfl)]
  rw [bind_of_run hdone]
  exact close start (φ items) s hs

namespace InStep

theorem moreItems (he : ExprsEnd source m v) (closing : Operator) (items : List Expr) :
    InStep source m AtAsync (Parser.moreItems (Parser.parseExpr .v37) closing items)
      (Parser.moreItems (Parser.parseExpr v) closing items) := by
  unfold Parser.moreItems
  refine InStep.loop (fun items => ?_) (fun items s hs _ => ?_) items
  case refine_2 =>
    rw [itemStep_done closing items (hs.ne rfl)]
    exact hs
  unfold Parser.itemStep
  refine .eats_bind rfl (.at?_bind rfl .done ?_) .done
  exact (Ends.starOrExpr he).settle.bind (fun item => .done) fun item => .pure fun _ hs => hs

/-- Further items and the bracket that closes the display. -/
theorem closeItems (he : ExprsEnd source m v) (closing : Operator) (start : Span)
    (items : List Expr) (φ : List Expr → Span → Expr) :
    InStep source m Nowhere
      (Parser.moreItems (Parser.parseExpr .v37) closing items >>= fun items =>
        Parser.expectClosing closing >>= fun _ => spanFrom start >>= fun span =>
          pure (φ items span))
      (Parser.moreItems (Parser.parseExpr v) closing items >>= fun items =>
        Parser.expectClosing closing >>= fun _ => spanFrom start >>= fun span =>
          pure (φ items span)) :=
  (moreItems he closing items).bind (fun items => close closing start (φ items)) fun items =>
    Leads.close start (φ items)

end InStep

namespace Ends

theorem yieldExpr (he : ExprsEnd source m v) (start : Span) :
    Ends source m SameStart (Parser.yieldExpr (Parser.parseExpr .v37) start)
      (Parser.yieldExpr (Parser.parseExpr v) start) := by
  unfold Parser.yieldExpr
  refine .eats_bind rfl (bind_spanFrom (he _).discard start fun _ _ => rfl) ?_
  have hvalues := bind_spanFrom (starExprs he).discard start (φ := fun _ => Expr.other)
    fun _ _ => rfl
  refine .kind_bind (fun kind _ => ?_) fun kind hword => ?_
  · refine .ite (fun _ => hvalues.pre fun _ _ hs => hs.1) fun _ => ?_
    refine (Mirrors.spanFrom_bind start fun span => .pure fun s u hs => ?_).pre fun _ _ hs => hs.1
    exact .inl ⟨rfl, hs⟩
  · rcases hword with rfl | rfl
    -- The operand of a yield may be left out, and under 3.7 it is left out before `async`.
    · refine bind_spanFrom (of_atAsync (R := fun _ _ => True) PUnit.unit fun u hk hfor => ?_) start
        (φ := fun _ => .other) fun _ _ => rfl
      exact ⟨PUnit.unit, trivial, discard_of_run (starExprs_name v hk hfor)⟩
    · exact hvalues.pre fun _ _ hs => hs.1

end Ends

namespace InStep

theorem parenthesized (hv : v.hasSoftAsync = true) (he : ExprsEnd source m v) (start : Span) :
    InStep source m Nowhere (Parser.parenthesized .v37 (Parser.parseExpr .v37) start)
      (Parser.parenthesized v (Parser.parseExpr v) start) := by
  unfold Parser.parenthesized
  refine .eats_bind rfl (.spanFrom_bind start fun _ => .done) ?_
  refine .eat_bind rfl (fun word => ?_) ?_
  · exact (Ends.yieldExpr he word.span).settle.discard.bind
      (fun _ => close .rParen start .other) fun _ => Leads.close start .other
  · refine comprehensionOr hv start .rParen (Ends.starOrExpr he) (fun first => ?_) fun first => ?_
    · refine .at?_bind rfl (closeItems he .rParen start [first] .tuple) ?_
      exact (expectClosing .rParen).bind_all fun _ => .done
    · refine .at?_bind (fun s hs => hs.ne rfl) ?_
      exact (Leads.expectClosing fun _ hs => hs.ne rfl).bind_nowhere fun _ s => .refl s

theorem listDisplay (hv : v.hasSoftAsync = true) (he : ExprsEnd source m v) (start : Span) :
    InStep source m Nowhere (Parser.listDisplay .v37 (Parser.parseExpr .v37) start)
      (Parser.listDisplay v (Parser.parseExpr v) start) := by
  unfold Parser.listDisplay
  refine .eats_bind rfl (.spanFrom_bind start fun _ => .done) ?_
  exact comprehensionOr hv start .rBracket (Ends.starOrExpr he)
    (fun first => closeItems he .rBracket start [first] .list)
    fun first => Leads.closeItems start [first] .list

end InStep

/-! ### Dictionaries -/

namespace Ends

/-- Where the colon of an entry is missing this is reported. -/
theorem dictEntry (he : ExprsEnd source m v) :
    Mirrors (fun entry s => entry ≠ none ∧ Lost s) (Softer source m)
      (End source m fun a b => a ≠ none ∧ b ≠ none) (Parser.dictEntry (Parser.parseExpr .v37))
      (Parser.dictEntry (Parser.parseExpr v)) := by
  have hvalue : ∀ (precedence : Precedence) (key : Expr),
      Mirrors (fun entry s => entry ≠ none ∧ Lost s) (Softer source m)
        (End source m fun a b => a ≠ none ∧ b ≠ none)
        (Parser.parseExpr .v37 precedence >>= fun value => pure (some (key, value)))
        (Parser.parseExpr v precedence >>= fun value => pure (some (key, value))) := by
    intro precedence key
    refine Ends.bind (he precedence) (fun value => .pure fun _ _ hs => .inl ⟨rfl, hs⟩)
      (fun value value' s u _ hs _ => .inr (.inr ⟨⟨?_, ?_⟩, hs⟩)) fun value => .pure fun _ hs => ?_
    · exact Option.some_ne_none _
    · exact Option.some_ne_none _
    · exact ⟨Option.some_ne_none _, hs⟩
  unfold Parser.dictEntry
  refine .peek_any fun start => .eats_bind rfl (hvalue _ _) ?_
  refine (he _).settle.bind (fun key => ?_) fun key => ?_
  · refine .peek_any fun token => .eats_bind rfl (hvalue _ _) ?_
    exact .expected_bind (onward_passOver .rCurly none)
  · refine .look_any fun token => .eats_bind (fun s hs => hs.ne rfl) ?_
    exact .expected_bind (onward_passOver .rCurly none)

/-- A dictionary is only left open where a comprehension begins behind its first entry. -/
theorem dictEntries (hv : v.hasSoftAsync = true) (he : ExprsEnd source m v) :
    Mirrors (fun _ => Nowhere) (Softer source m) (End source m fun a b => a = none ∧ b = none)
      (Parser.dictEntries .v37 (Parser.parseExpr .v37))
      (Parser.dictEntries v (Parser.parseExpr v)) := by
  unfold Parser.dictEntries Parser.moreEntries
  refine Mirrors.loop_ends (X := fun _ => Nowhere) (fun items => ?_) (fun _ => .nowhere)
    (fun _ _ hs => hs) []
  -- Without a comprehension behind it an entry has to be followed by a comma or the bracket.
  have hend : ∀ items : List (Expr × Expr), Leads AtAsync (fun _ => Nowhere) (do
      if ← eats (.operator .comma) then
        if ← at? (.operator .rCurly) then
          Parser.expectClosing .rCurly
          pure (.finished (some items))
        else pure (.again items)
      else
        Parser.expectClosing .rCurly
        pure (.finished (some items)) :
      Parser (LoopStep (List (Expr × Expr)) (Option (List (Expr × Expr))))) := by
    intro items
    refine .eats_bind (fun s hs => hs.ne rfl) ?_
    exact (Leads.expectClosing fun _ (hs : AtAsync _) => hs.ne rfl).bind_nowhere fun _ s => .refl s
  unfold Parser.entryStep
  refine Ends.bind (dictEntry he) (fun entry => ?_) (fun entry entry' s u hsome hs => ?_)
    fun entry s ⟨hsome, hs⟩ => ?_
  · cases entry with
    | none => exact .pure fun _ _ hs => .inl ⟨rfl, hs⟩
    | some entry =>
      have hclose : ∀ r : LoopStep (List (Expr × Expr)) (Option (List (Expr × Expr))),
          InStep source m Nowhere (Parser.expectClosing .rCurly >>= fun _ => pure r)
            (Parser.expectClosing .rCurly >>= fun _ => pure r) :=
        fun _ => (InStep.expectClosing .rCurly).bind_all fun _ => .done
      refine .look_any (fun s u hs => ?_) fun found => .ite (fun _ => ?_) fun _ => ?_
      · rw [hs.cursor_eq, Cursor.atComprehension_soften hv hs.reserving]
      · exact .pure fun _ _ hs => .inl ⟨rfl, hs⟩
      · refine Mirrors.post (J := Agree source m) ?_ fun _ _ _ _ hs => .inl hs
        exact .eats_bind rfl (.at?_bind rfl (hclose _) .done) (hclose _)
  · obtain ⟨entry, rfl⟩ := Option.ne_none_iff_exists'.1 hsome.1
    obtain ⟨entry', rfl⟩ := Option.ne_none_iff_exists'.1 hsome.2
    simp only [Sim.look_bind, hs.atComprehension, hs.atComprehension_soft, List.length_append,
      List.length_singleton, Bool.and_true]
    split
    · exact fun _ => .inr (.inr ⟨hs, none, none, ⟨rfl, rfl⟩, rfl, rfl⟩)
    · exact fun hclean => (hend _ s hs.atAsync hclean).elim
  · obtain ⟨entry, rfl⟩ := Option.ne_none_iff_exists'.1 hsome
    simp only [Sim.look_bind, hs.atComprehension, Bool.and_false]
    exact fun hclean => (hend _ s hs.1 hclean).elim

end Ends

theorem InStep.curlyDisplay (hv : v.hasSoftAsync = true) (he : ExprsEnd source m v)
    (start : Span) :
    InStep source m Nowhere (Parser.curlyDisplay .v37 (Parser.parseExpr .v37) start)
      (Parser.curlyDisplay v (Parser.parseExpr v) start) := by
  unfold Parser.curlyDisplay
  refine .eats_bind rfl (.spanFrom_bind start fun _ => .done) ?_
  refine .look_any (fun s u hs => ?_) fun dict => .ite (fun _ => ?_) fun _ => ?_
  · rw [hs.cursor_eq, Cursor.atDictEntry_soften]
  · refine Ends.bind (Ends.dictEntries hv he) (fun items => ?_)
      (fun items items' s u hnone hs => ?_) fun _ => .nowhere
    · cases items with
      | some items => exact .spanFrom_bind start fun _ => .done
      | none => exact (comprehension start .rCurly).pre fun _ _ hs => .inl hs
    · obtain ⟨rfl, rfl⟩ := hnone
      exact (comprehension start .rCurly).run s u (.inr hs)
  · exact comprehensionOr hv start .rCurly (Ends.starOrExpr he)
      (fun first => closeItems he .rCurly start [first] .set)
      fun first => Leads.closeItems start [first] .set

/-! ### Subscripts -/

namespace InStep

theorem sliceBounds (he : ExprsEnd source m v) :
    InStep source m AtAsync (Parser.sliceBounds (Parser.parseExpr .v37))
      (Parser.sliceBounds (Parser.parseExpr v)) := by
  unfold Parser.sliceBounds
  have hbound : InStep source m AtAsync
      (Functor.discard (Parser.parseExpr .v37 .initial) >>= fun _ =>
        pure (.again ()) : Parser (LoopStep Unit Unit))
      (Functor.discard (Parser.parseExpr v .initial) >>= fun _ => pure (.again ())) :=
    (he _).settle.discard.bind (fun _ => .done) fun _ => .pure fun _ hs => hs
  refine InStep.loop (fun _ => ?_) (fun _ => ?_) ()
  · refine .eats_bind rfl (.kind_cases (fun kind _ => ?_) fun kind hword => ?_) .done
    · split
      · exact .done
      · exact .done
      · exact .done
      · exact hbound
    · rcases hword with rfl | rfl
      · exact hbound
      · exact hbound
  · exact .eats_bind (fun s hs => hs.ne rfl) (.pure fun _ hs => hs)

theorem slice (he : ExprsEnd source m v) (start : Span) :
    InStep source m AtAsync (Parser.slice (Parser.parseExpr .v37) start)
      (Parser.slice (Parser.parseExpr v) start) := by
  unfold Parser.slice
  exact (sliceBounds he).bind (fun _ => .spanFrom_bind start fun _ => .done)
    fun _ => .spanFrom_bind fun _ => .pure fun _ hs => hs

theorem subscriptItem (he : ExprsEnd source m v) :
    InStep source m AtAsync (Parser.subscriptItem (Parser.parseExpr .v37))
      (Parser.subscriptItem (Parser.parseExpr v)) := by
  unfold Parser.subscriptItem
  have hitem : ∀ start : Span, InStep source m AtAsync
      (Parser.starOrExpr (Parser.parseExpr .v37) >>= fun lower => do
        if ← at? (.operator .colon) then Parser.slice (Parser.parseExpr .v37) start
        else pure lower)
      (Parser.starOrExpr (Parser.parseExpr v) >>= fun lower => do
        if ← at? (.operator .colon) then Parser.slice (Parser.parseExpr v) start
        else pure lower) := by
    intro start
    refine (Ends.starOrExpr he).settle.bind (fun lower => ?_) fun lower => ?_
    · exact .at?_bind rfl (slice he start) .done
    · exact .at?_bind (fun s hs => hs.ne rfl) (.pure fun _ hs => hs)
  refine .peek_cases (fun start _ => .ite (fun _ => ?_) fun _ => ?_) fun start hword => ?_
  · exact slice he start.span
  · exact hitem start.span
  · rw [if_neg, if_neg]
    · exact hitem start.span
    all_goals rcases hword with hk | hk <;> simp [hk, TokenKind.soften]

theorem subscriptItems (he : ExprsEnd source m v) :
    InStep source m AtAsync (Parser.subscriptItems (Parser.parseExpr .v37))
      (Parser.subscriptItems (Parser.parseExpr v)) := by
  unfold Parser.subscriptItems
  -- Only the last item may stand before a reserved word, since a comma comes after the others.
  refine InStep.loop_ended (fun (items, separated) => ?_) ([], false)
  have hitem : Mirrors (Ended AtAsync) (Softer source m) (Agree source m)
      (Parser.subscriptItem (Parser.parseExpr .v37) >>= fun item => do
        if ← eats (.operator .comma) then pure (LoopStep.again (items ++ [item], true))
        else pure (.finished (items ++ [item], separated)))
      (Parser.subscriptItem (Parser.parseExpr v) >>= fun item => do
        if ← eats (.operator .comma) then pure (LoopStep.again (items ++ [item], true))
        else pure (.finished (items ++ [item], separated))) := by
    refine (subscriptItem he).bind (fun item => .eats_bind rfl .done .done) fun item => ?_
    exact .eats_bind (fun s hs => hs.ne rfl) (.pure fun _ hs => hs)
  unfold Parser.subscriptStep
  refine .kind_cases (fun kind _ => .ite (fun _ => ?_) fun _ => ?_) fun kind hword => ?_
  · exact .done
  · exact hitem
  · rcases hword with rfl | rfl
    · exact hitem
    · exact hitem

theorem subscript (he : ExprsEnd source m v) :
    InStep source m Nowhere (Parser.subscript (Parser.parseExpr .v37))
      (Parser.subscript (Parser.parseExpr v)) := by
  unfold Parser.subscript
  refine .peek_any fun start => (subscriptItems he).bind (fun (items, separated) => ?_)
    fun (items, separated) => ?_
  · refine (expectClosing .rBracket).bind_all fun _ => ?_
    split
    · exact .done
    · exact .spanFrom_bind start.span fun _ => .done
  · refine (Leads.expectClosing fun _ hs => hs.ne rfl).bind_nowhere fun _ s => ?_
    split
    · exact .refl s
    · exact .refl s

end InStep

/-! ### Calls -/

/-- Where no error is reported an expression ends with what has been read, and the closing bracket
    is not before that. -/
theorem Parser.parseExpr_stop_le (precedence : Precedence) (hin : s.cursor.InText source)
    (hclean : (Parser.parseExpr v precedence s).2.errors = []) :
    (Parser.parseExpr v precedence s).1.span.stop
      ≤ (Parser.parseExpr v precedence s).2.cursor.skipToClosing.reached := by
  have herrors : s.errors = [] := (Onward.parseExpr v precedence s).errors_eq_nil hclean
  -- The tree of an expression is known to lie in what was read where no report was made.
  have hplaced := (PlacedExprs.parseExpr (w := ⟨source, True⟩) v).yields precedence 0
  obtain ⟨-, hsince⟩ := hplaced.places s ⟨hin, by simp [herrors]⟩
    ⟨trivial, ⟨⟨Nat.zero_le _, fun _ _ _ => Nat.zero_le _⟩, .nil, nofun⟩⟩
    fun _ => hclean.trans herrors.symm
  have hbound := ((hsince.row.trees trivial).bounds _ (List.mem_singleton.2 rfl)).2
  rw [Expr.span_spanTree] at hbound
  obtain ⟨n, hread⟩ := hplaced.onward s hin
  exact Nat.le_trans hbound ((hread.cursor_inText (w := ⟨source, True⟩) hin).reached_le _)

/-- What ends before another span does not show when they are merged. -/
theorem Span.merge_eq_of_le {a b c : Span} (hstart : a.start = b.start) (ha : a.stop ≤ c.stop)
    (hb : b.stop ≤ c.stop) : a.merge c = b.merge c := by
  rw [Span.merge, Span.merge, hstart, Nat.max_eq_left ha, Nat.max_eq_left hb]

/-- An argument begins with an expression, which cannot be missing. -/
theorem Leads.positionalArgument (v : Version) {D : ParserState → Prop}
    (h : Leads D (fun _ => Nowhere) (Parser.parseExpr v .initial)) :
    Leads D (fun _ => Nowhere) (Parser.positionalArgument v (Parser.parseExpr v)) := by
  unfold Parser.positionalArgument
  refine h.bind_nowhere fun value s => ?_
  rw [Sim.look_bind]
  split
  · exact .skipToClosing s
  · exact .refl s

namespace InStep

/-- Where an argument is a comprehension without brackets of its own, its span depends only on where
    the first expression in it begins. -/
theorem positionalArgument (hv : v.hasSoftAsync = true) (he : ExprsEnd source m v) :
    InStep source m AtAsync (Parser.positionalArgument .v37 (Parser.parseExpr .v37))
      (Parser.positionalArgument v (Parser.parseExpr v)) := by
  unfold Parser.positionalArgument
  have hfirst : Mirrors (fun _ => Lost) (Softer source m)
      (fun a b s u => Agree source m a b s u ∨ Waiting source m s u ∧ SameStart a b
        ∧ a.span.stop ≤ s.cursor.skipToClosing.reached
        ∧ b.span.stop ≤ u.cursor.skipToClosing.reached)
      (Parser.parseExpr .v37 .initial) (Parser.parseExpr v .initial) := by
    refine (he .initial).post_run fun s u hs hclean hend => hend.imp_right fun ⟨hstart, hw⟩ => ?_
    have hclean' : (Parser.parseExpr v .initial u).2.errors = [] :=
      (congrArg ParserState.errors hw.softer.soften).trans hclean
    exact ⟨hw, hstart, parseExpr_stop_le _ hs.inText hclean,
      parseExpr_stop_le _ (hs.inText_soften hv) hclean'⟩
  have hsame : ∀ value : Expr, InStep source m AtAsync
      (look (Cursor.atComprehension .v37) >>= fun found =>
        if found then do
          skipToClosing
          pure (.positional (.other (← spanFrom value.span)))
        else pure (Argument.positional value))
      (look (Cursor.atComprehension v) >>= fun found =>
        if found then do
          skipToClosing
          pure (.positional (.other (← spanFrom value.span)))
        else pure (Argument.positional value)) := by
    intro value
    refine .look_any (fun s u hs => ?_) fun found => .ite (fun _ => ?_) fun _ => .done
    · rw [hs.cursor_eq, Cursor.atComprehension_soften hv hs.reserving]
    · exact .skipToClosing_bind (.spanFrom_bind value.span fun _ => .done)
  refine hfirst.bind (fun value value' => ⟨(hsame value).onward, ?_⟩) fun value s hs => ?_
  · rintro s u (⟨rfl, hs⟩ | ⟨hw, hstart, hstop, hstop'⟩)
    · exact (hsame value).run s u hs
    -- The two first expressions may be different, but what they are merged with ends behind both.
    · have hlast : u.cursor.skipToClosing.lastSpan = s.cursor.skipToClosing.lastSpan := by
        have hcursor : u.cursor.skipToClosing = s.cursor.skipToClosing.soften :=
          hw.skipToClosing.cursor_eq
        rw [hcursor, Cursor.lastSpan_soften]
      rw [Cursor.reached, hlast] at hstop'
      rw [Sim.look_bind, Sim.look_bind, hw.atComprehension, hw.atComprehension_soft]
      refine fun _ => .inr ⟨?_, hw.skipToClosing⟩
      show Argument.positional (.other (value.span.merge s.cursor.skipToClosing.lastSpan))
        = .positional (.other (value'.span.merge u.cursor.skipToClosing.lastSpan))
      rw [hlast, Span.merge_eq_of_le hstart hstop hstop']
  · rw [Sim.look_bind, hs.atComprehension]
    exact fun _ => hs.1

theorem argument (hv : v.hasSoftAsync = true) (he : ExprsEnd source m v) :
    InStep source m AtAsync (Parser.argument .v37 (Parser.parseExpr .v37))
      (Parser.argument v (Parser.parseExpr v)) := by
  unfold Parser.argument
  have hspread : ∀ φ : Expr → Argument, InStep source m AtAsync
      (advance >>= fun _ => φ <$> Parser.parseExpr .v37 .initial)
      (advance >>= fun _ => φ <$> Parser.parseExpr v .initial) :=
    fun φ => .advance_bind ((he .initial).settle.map φ)
  have hpositional := positionalArgument hv he
  refine .peek_bind (fun token _ => ?_) fun token hword => ?_
  · split
    · exact (hspread _).pre fun _ _ hs => hs.1
    · exact (hspread _).pre fun _ _ hs => hs.1
    · cases identifier? token with
      | none => exact hpositional.pre fun _ _ hs => hs.1
      | some name =>
        refine Mirrors.pre (I := Softer source m) ?_ fun _ _ hs => hs.1
        refine .look_any (fun s u hs => ?_) fun keyword => .ite (fun _ => ?_) fun _ => hpositional
        · rw [hs.cursor_eq, Cursor.kindAt_soften, Bool.eq_iff_iff, beq_iff_eq, beq_iff_eq,
            TokenKind.soften_eq_iff rfl]
        · exact .advance_bind (hspread (.keyword name))
  · -- Only one grammar takes the word for a name, and only `await` is an argument in the other.
    have hnone := identifier?_of_word hword
    have hsome := identifier?_soften_of_word hword
    rcases hword with hk | hk
    · simp only [hk, hnone]
      -- Under 3.7 no expression begins here.
      have hmissing := Leads.positionalArgument .v37 (Leads.parseExpr_missing .v37 .initial)
      refine .of_leads hpositional.onward hmissing.anyway fun s u hs => ?_
      rw [Cursor.kind_eq, hs.2, hk]
      rfl
    · have hkind : token.soften.kind = .identifier := by rw [Token.soften_kind, hk]; rfl
      simp only [hk, hnone, hkind, hsome]
      refine ⟨hpositional.onward, fun s u ⟨hs, htoken⟩ hclean => ?_⟩
      -- Before an equals sign there is no operand for `await`.
      have hmissing := Leads.positionalArgument .v37 (Leads.parseExpr_await .v37 .initial)
      have hequal : s.cursor.kindAt 1 ≠ .equal := fun hequal =>
        hmissing s ⟨by rw [Cursor.kind_eq, htoken, hk], by rw [hequal]; rfl⟩ hclean
      have hlook : (u.cursor.kindAt 1 == .equal) = false := by
        rwa [hs.cursor_eq, Cursor.kindAt_soften, beq_eq_false_iff_ne, Ne,
          TokenKind.soften_eq_iff rfl]
      rw [Sim.look_bind, hlook]
      exact hpositional.run s u hs hclean

end InStep

section ArgumentEnd

variable (arguments : List Argument)

/-- Behind an argument a reserved word is reported. -/
theorem Leads.argumentEnd :
    Leads AtAsync (fun _ => Nowhere) (Parser.argumentEnd arguments) := by
  unfold Parser.argumentEnd
  refine .peek_bind (P := (· = .keyword .async)) (fun _ hs => hs) fun token hk => ?_
  simp only [hk]
  exact .expected_bind (onward_passOver .rParen _)

theorem InStep.argumentEnd :
    InStep source m Nowhere (Parser.argumentEnd arguments) (Parser.argumentEnd arguments) := by
  unfold Parser.argumentEnd
  refine .peek_cases (fun token _ => ?_) fun token hword => ?_
  · split
    · exact .done
    · exact .done
    · exact .expected_bind (onward_passOver .rParen _)
  · rcases hword with hk | hk
    all_goals
      simp only [hk]
      exact .expected_bind (onward_passOver .rParen _)

end ArgumentEnd

namespace InStep

theorem callArguments (hv : v.hasSoftAsync = true) (he : ExprsEnd source m v) :
    InStep source m Nowhere (Parser.callArguments .v37 (Parser.parseExpr .v37))
      (Parser.callArguments v (Parser.parseExpr v)) := by
  unfold Parser.callArguments Parser.moreArguments
  refine InStep.loop_all (fun arguments => ?_) []
  have hitem : InStep source m Nowhere
      (Parser.argument .v37 (Parser.parseExpr .v37) >>= fun item =>
        Parser.argumentEnd (arguments ++ [item]))
      (Parser.argument v (Parser.parseExpr v) >>= fun item =>
        Parser.argumentEnd (arguments ++ [item])) :=
    (argument hv he).bind (fun item => argumentEnd _) fun item => Leads.argumentEnd _
  unfold Parser.argumentStep
  refine .kind_cases (fun kind _ => ?_) fun kind hword => ?_
  · exact .ite (fun _ => .advance_bind .done) fun _ => .ite (fun _ => .advance_bind .done)
      fun _ => hitem
  · rcases hword with rfl | rfl
    · exact hitem
    · exact hitem

end InStep

end PyAtlas
