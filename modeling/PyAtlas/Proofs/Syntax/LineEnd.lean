import PyAtlas.Proofs.Syntax.Nesting

/-!
# Small statements end with their line

Small statements are read up to the end of their line, and whatever is wrong with them, they are
left there: behind the newline that ends the line. Nothing of the next line is lost to a fault in
this one.

`FinishesLine line newlines s t` says what has been read between `s` and `t`: the rest of a line,
the newline behind it, and perhaps more newlines that come right after. No production for a small
statement reads a newline, so a line is still under way where such a statement ends. What follows
there either goes on with the line or ends it.

## Key results
- `FinishesLine.of_along`: the line is the same all along.
- `FinishesLine.smallStatementEnd`: what stands behind a small statement goes on or ends the line.
- `Parser.smallStatements_finishesLine`: small statements end with their line.
-/

namespace PyAtlas

/-- The parser has come from `s` to `t` over `line`, in which there is no layout, and the
    `newlines` behind it. There is one newline at least. -/
structure FinishesLine (line newlines : List Token) (s t : ParserState) : Prop where
  plain : ∀ u ∈ line, u.kind.isLayout = false
  ended : newlines ≠ []
  newline : ∀ u ∈ newlines, u.kind = .newline
  before : t.cursor.before = (line ++ newlines).reverse ++ s.cursor.before
  after : s.cursor.after = line ++ newlines ++ t.cursor.after

/-! ### Reading over some tokens -/

theorem Cursor.before_advanceBy (n : Nat) (c : Cursor) :
    (c.advanceBy n).before = (c.after.take n).reverse ++ c.before := by
  induction n generalizing c with
  | zero => rfl
  | succ n ih =>
    rw [advanceBy, ih]
    cases hafter : c.after with
    | nil => rw [advance_of_nil hafter, hafter, List.take_nil, List.take_nil]
    | cons t ts => simp [advance_of_after hafter]

namespace FinishesLine

variable {line newlines : List Token} {s t u : ParserState}

/-- Some tokens are read: those of the line and the newlines behind it. -/
theorem of_read {n : Nat} (hplain : ∀ u ∈ line, u.kind.isLayout = false) (hended : newlines ≠ [])
    (hnewline : ∀ u ∈ newlines, u.kind = .newline)
    (htake : s.cursor.after.take n = line ++ newlines) (hread : ReadOn n s t) :
    FinishesLine line newlines s t where
  plain := hplain
  ended := hended
  newline := hnewline
  before := by rw [hread.cursor, Cursor.before_advanceBy, htake]
  after := by rw [hread.after, ← htake, List.take_append_drop]

/-- What was read along the line before it ends belongs to the line. -/
theorem of_along (hfirst : Along s t) (h : FinishesLine line newlines t u) :
    ∃ line', FinishesLine line' newlines s u := by
  obtain ⟨n, hread, hplain⟩ := hfirst
  refine ⟨s.cursor.after.take n ++ line, ?_, h.ended, h.newline, ?_, ?_⟩
  · exact List.forall_mem_append.2 ⟨hplain, h.plain⟩
  · rw [h.before, hread.cursor, Cursor.before_advanceBy]
    simp
  · have hrest : s.cursor.after.drop n = line ++ newlines ++ u.cursor.after := by
      rw [← hread.after, h.after]
    calc s.cursor.after
        = s.cursor.after.take n ++ s.cursor.after.drop n := (List.take_append_drop n _).symm
      _ = s.cursor.after.take n ++ line ++ newlines ++ u.cursor.after := by
        rw [hrest]
        simp

/-- The newline that ends the line is read. -/
theorem advance (hk : s.cursor.kind = .newline) :
    ∃ line newlines, FinishesLine line newlines s (s.move Cursor.advance) := by
  cases hafter : s.cursor.after with
  | nil =>
    rw [Cursor.kind_eq, Cursor.peek, Cursor.peekNth, hafter] at hk
    cases hk
  | cons t ts =>
    rw [Cursor.kind_eq, Cursor.peek_of_after hafter] at hk
    refine ⟨[], [t], of_read (n := 1) (List.forall_mem_nil _)
      (List.cons_ne_nil t []) ?_ ?_ ⟨rfl, List.prefix_rfl⟩⟩
    · exact List.forall_mem_singleton.2 hk
    · rw [hafter]
      rfl

/-- All newlines that come next are read. -/
theorem skipNewlines (hk : s.cursor.kind = .newline) :
    ∃ line newlines, FinishesLine line newlines s (s.move Cursor.skipNewlines) := by
  refine ⟨[], s.cursor.after.takeWhile (·.kind == .newline), of_read nofun ?_ ?_ ?_
    ⟨rfl, List.prefix_rfl⟩⟩
  · cases hafter : s.cursor.after with
    | nil =>
      rw [Cursor.kind_eq, Cursor.peek, Cursor.peekNth, hafter] at hk
      cases hk
    | cons t ts =>
      rw [Cursor.kind_eq, Cursor.peek_of_after hafter] at hk
      simp [hk]
  · intro u hu
    simpa using List.all_eq_true.1 List.all_takeWhile u hu
  · exact (List.prefix_iff_eq_take.1 (List.takeWhile_prefix _)).symm

/-- A line under way goes on up to a newline, and that is how long it is. -/
theorem exists_line {ts : List Token} (hs : OnLine ts) :
    ∃ line nl, (∀ u ∈ line, u.kind.isLayout = false) ∧ nl.kind = .newline
      ∧ ts.take (Cursor.lineLength ts) = line ++ [nl] := by
  obtain ⟨us, k, size, rfl, hlaid⟩ := hs
  induction us with
  | nil => cases hlaid
  | cons t ts ih =>
    cases hlaid with
    | newline hk _ =>
      refine ⟨[], t, nofun, hk, ?_⟩
      simp [Cursor.lineLength, hk]
    | plain hk hlaid =>
      obtain ⟨line, nl, hplain, hnl, htake⟩ := ih hlaid
      refine ⟨t :: line, nl, List.forall_mem_cons.2 ⟨hk, hplain⟩, hnl, ?_⟩
      have hlength : Cursor.lineLength (t :: (ts ++ [Token.endOfInput size]))
          = Cursor.lineLength (ts ++ [Token.endOfInput size]) + 1 := by
        rw [Cursor.lineLength]
        split
        · rename_i heof
          exact absurd heof (TokenKind.ne_eof_of_plain hk)
        · rename_i hnewline
          rw [hnewline] at hk
          cases hk
        · rfl
      rw [List.cons_append, hlength, List.take_succ_cons, htake, List.cons_append]

/-- The rest of the line is passed over. -/
theorem skipLine (hs : OnLine s.cursor.after) :
    ∃ line newlines, FinishesLine line newlines s (s.move Cursor.skipLine) := by
  obtain ⟨line, nl, hplain, hnl, htake⟩ := exists_line hs
  exact ⟨line, [nl], of_read hplain (List.cons_ne_nil nl []) (List.forall_mem_singleton.2 hnl) htake
    ⟨rfl, List.prefix_rfl⟩⟩

/-! ### Small statements -/

/-- What one step does in a loop that reads on to the end of the line: where it goes round it has
    read something and the line is still under way, and where it ends the line ends. -/
def Step {α β : Type} (s : ParserState) : Parser.LoopStep α β × ParserState → Prop
  | (.again _, t) => Along s t ∧ t.remaining < s.remaining
  | (.finished _, t) => ∃ line newlines, FinishesLine line newlines s t

/-- Such a step may be preceded by anything that stays on the line. -/
theorem Step.of_along {α β : Type} {r : Parser.LoopStep α β × ParserState} (hfirst : Along s t)
    (h : Step t r) : Step s r := by
  obtain ⟨step, u⟩ := r
  cases step with
  | again a =>
    obtain ⟨n, hread, -⟩ := id hfirst
    have hle : t.remaining ≤ s.remaining := Reaches.remaining_le ⟨n, hread⟩
    exact ⟨hfirst.trans h.1, Nat.lt_of_lt_of_le h.2 hle⟩
  | finished b =>
    obtain ⟨line, newlines, hends⟩ := h
    obtain ⟨line', hends'⟩ := hends.of_along hfirst
    exact ⟨line', newlines, hends'⟩

/-- A step may begin with a look at the next token. -/
theorem Step.peek_bind {α β : Type} {f : Token → Parser (Parser.LoopStep α β)}
    (h : Step s (f s.cursor.peek s)) : Step s ((Parser.peek >>= f) s) := h

/-- The rule for such loops. They never give up. -/
theorem loop {α β : Type} {giveUp : α → β} {step : α → Parser (Parser.LoopStep α β)}
    (hstep : ∀ a s, OnLine s.cursor.after → Step s (step a s)) (a : α)
    (hs : OnLine s.cursor.after) :
    ∃ line newlines, FinishesLine line newlines s (Parser.loop giveUp step a s).2 := by
  -- The induction is on the tokens that remain, which each round makes fewer.
  induction hm : s.remaining using Nat.strongRecOn generalizing a s with
  | ind m ih =>
    have hfirst := hstep a s hs
    rw [Parser.loop_eq]
    cases hr : step a s with
    | mk r t =>
      rw [hr] at hfirst
      cases r with
      | finished b => exact hfirst
      | again a' =>
        obtain ⟨halong, hlt⟩ := hfirst
        obtain ⟨line, newlines, hends⟩ := ih _ (hm ▸ hlt) a' (halong.onLine hs) rfl
        obtain ⟨line', hends'⟩ := hends.of_along halong
        simp only [if_pos hlt]
        exact ⟨line', newlines, hends'⟩

/-- What stands behind a small statement goes on with the line or ends it. -/
theorem smallStatementEnd (stmts : List Stmt) (hs : OnLine s.cursor.after) :
    Step s (Parser.smallStatementEnd stmts s) := by
  unfold Parser.smallStatementEnd
  refine Step.peek_bind ?_
  have hkind := hs.kind
  generalize hk : s.cursor.peek.kind = k
  rw [Cursor.kind_eq, hk] at hkind
  split
  · have hplain : s.cursor.kind.isLayout = false := by
      rw [Cursor.kind_eq, hk]
      rfl
    have halong : Along s (s.move Cursor.advance) := .advance hplain
    have hlt : (s.move Cursor.advance).remaining < s.remaining :=
      Cursor.remaining_advance_lt (TokenKind.ne_eof_of_plain hplain)
    show Step s ((if (s.move Cursor.advance).cursor.kind.isLineEnd then do
        Parser.skipNewlines
        pure (.finished stmts)
      else pure (.again stmts) : Parser (Parser.LoopStep (List Stmt) (List Stmt)))
        (s.move Cursor.advance))
    split
    · rename_i hend
      refine Step.of_along halong (skipNewlines ?_)
      -- On a line nothing but a newline ends it.
      rcases (halong.onLine hs).kind with hnext | hnext
      · revert hnext hend
        generalize (s.move Cursor.advance).cursor.kind = k
        cases k <;> simp [TokenKind.isLineEnd, TokenKind.isLayout]
      · exact hnext
    · exact ⟨halong, hlt⟩
  · exact FinishesLine.advance hk
  · simp [TokenKind.isLayout] at hkind
  · simp [TokenKind.isLayout] at hkind
  · have hreport : Along s (Parser.expected .endOfStatement s.cursor.peek s).2 := .report s
    exact Step.of_along hreport (skipLine (hreport.onLine hs))

end FinishesLine

/-- Small statements on a line under way end with it. -/
theorem FinishesLine.smallStatements (v : Version) {s : ParserState} (hs : OnLine s.cursor.after) :
    ∃ line newlines, FinishesLine line newlines s (Parser.smallStatements v s).2 := by
  refine FinishesLine.loop (fun stmts s hs => ?_) [] hs
  have halong : Along s (Parser.smallStatement v s).2 :=
    Stays.smallStatement (I := fun _ => True) v s hs trivial
  exact .of_along halong (smallStatementEnd _ (halong.onLine hs))

/-- However malformed they are, small statements are left behind the first newline token at or
    after the place where they begin, or behind further newlines right after it: what is read is
    a line without any layout and then newlines, of which there is always one. -/
theorem Parser.smallStatements_finishesLine (v : Version) (source : String) (s : ParserState)
    (hs : s.cursor.tokens = tokenize v source) (hplain : s.cursor.kind.isLayout = false) :
    ∃ line newlines, FinishesLine line newlines s (Parser.smallStatements v s).2 :=
  FinishesLine.smallStatements v ((Orderly.of_tokenize hs).onLine hplain)

/-- A line with an unfinished call, a stray bracket and an import of nothing. -/
theorem smallStatements_finishesLine_malformed :
    let s := Parser.start .v37 "x = f(1, +; ) import\n\ny = 2\n"
    s.cursor.tokens = tokenize .v37 "x = f(1, +; ) import\n\ny = 2\n"
      ∧ s.cursor.kind.isLayout = false
      ∧ ∃ line newlines, FinishesLine line newlines s (Parser.smallStatements .v37 s).2 := by
  intro s
  have hs : s.cursor.tokens = tokenize .v37 "x = f(1, +; ) import\n\ny = 2\n" := rfl
  have hplain : s.cursor.kind.isLayout = false := by decide +kernel
  exact ⟨hs, hplain, Parser.smallStatements_finishesLine .v37 _ s hs hplain⟩

end PyAtlas
