import PyAtlas.Proofs.Syntax.StmtSimulation
import PyAtlas.Proofs.Token.Concatenation

/-!
# Parsing statement by statement

A text that consists of two parts, each with statements of its own, is parsed part by part. The
run on the whole is followed in two phases. As long as tokens of the first part are left, it is
in step with the run on that part alone. Where they are used up, the loop over the statements of
the module goes on as if it began with the second part.

## Key results
- `moduleBody_front`: the first phase.
- `moduleBody_back`: the second phase.
- `SyntaxTree.parse_append`: the tree and the errors of two texts in a row.
-/

namespace PyAtlas

namespace Sim

open PyAtlas.Parser

variable {σ : Seam} {E : Escape σ} {m : Nat}

/-- One item of a module. -/
theorem moduleItem (v : Version) :
    Sim E (fun s t => (Meets σ .ahead 0 s t ∧ t.remaining ≤ m)
        ∧ t.cursor.kind ≠ .newline ∧ t.cursor.kind ≠ .eof)
      (fun _ => Within m (Meets σ .anywhere 0)) (List.map (Stmt.shift σ.offset))
      (Parser.moduleItem v) (Parser.moduleItem v) := by
  unfold Parser.moduleItem
  refine (peek fun _ _ h => h.1.1).bind fun token => ?_
  rw [Token.shift_kind]
  split
  · rename_i hk
    -- A dedent that closes no block is passed over.
    have hlost : ∀ s t, Meets σ .ahead 0 s t → t.cursor.peek = token → Meets σ .lost 0 s t :=
      fun s t h hpeek => h.of_dedent (by rw [Cursor.kind_eq, hpeek]; exact hk) 0
    refine (((advance_lost).pre fun s t h => hlost s t h.1.1.1 h.2).reads (fun _ => rfl)
      fun s t h => ⟨h.1.2.2, h.1.1.2⟩).bind fun _ => ?_
    exact .pure rfl fun _ _ h => ⟨h.1.of_lost .anywhere 0, h.2⟩
  · rename_i hk
    exact (strayBlock (indentedBody v m) hk).pre fun _ _ h => ⟨h.1.1, h.2⟩
  · rename_i hdedent hindent
    refine (statement v (indentedBody v m)).pre fun s t h => ?_
    refine opening_of_peek (TokenKind.isLayout_of_ne ?_ hdedent hindent ?_) h.1.1.1 h.2 h.1.1.2
    · rw [← h.2]
      exact h.1.2.2
    · rw [← h.2]
      exact h.1.2.1

/-! ### The part at the back -/

/-- No way out: both runs are followed to their end. -/
def never (past : List Token) (n : Nat) : Escape (.back past n) where
  holds _ := False
  onward _ h := h
  fault h _ := by cases h

/-- Statements, and others behind them that stand `n` bytes later than they say. -/
def joined (stmts : List Stmt) (n : Nat) (body : List Stmt) : List Stmt :=
  stmts ++ shiftBody n body

/-- The rest of the whole text is parsed as the part at the back is. -/
theorem moduleBody_back (v : Version) (past : List Token) (n : Nat) (stmts body : List Stmt) :
    Sim (never past n) (Meets (.back past n) .anywhere 0)
      (fun _ => Meets (.back past n) .anywhere 0) (joined stmts n)
      (Parser.loop id (moduleStep v) (joined stmts n body))
      (Parser.loop id (moduleStep v) body) := by
  refine loop_within (φ := joined stmts n) (I := fun _ => Meets (.back past n) .anywhere 0)
    (fun m body => ?_) (fun _ _ _ h => ⟨0, h⟩) (by intro _; rfl) body
  unfold moduleStep
  refine ((skipNewlines).keep (P := fun t => t.remaining ≤ m) fun h hle =>
    Nat.le_trans h.remaining_le hle).bind fun _ => ?_
  refine cond (at? (k := 0) _ fun _ _ h => h.1.1) ?_ ?_
  · exact .pure rfl fun _ _ h => h.1.1.1
  · refine ((moduleItem v).pre fun _ _ h => ⟨⟨h.1.1.1, h.1.2⟩, h.1.1.2, h.2⟩).bind
      fun more => ?_
    refine .pure ?_ fun _ _ h => h
    rw [mapStep, joined, joined, shiftBody_append, ← shiftBody_eq_map, Seam.offset,
      List.append_assoc]

/-! ### The part in front -/

/-- A faulty part in front is followed no further. -/
def faulty (σ : Seam) : Escape σ where
  holds t := t.errors ≠ []
  onward h ht := fun hnil => ht (h.errors_eq_nil hnil)
  fault _ h := h

/-- Every text is a part of itself. -/
private theorem atBack_refl (t : ParserState) : AtBack [] 0 t t := by
  have hmap : ∀ ts : List Token, shiftTokens 0 ts = ts := fun ts => by
    rw [shiftTokens, show Token.shift 0 = id from rfl, List.map_id]
  refine ⟨?_, (hmap _).symm, rfl, ?_⟩
  · rw [hmap, List.append_nil]
  · rw [show SyntaxError.shift 0 = id from rfl, List.map_id]

/-- Each item of a module has a token. -/
theorem moduleItem_lt (v : Version) {t : ParserState} (hnewline : t.cursor.kind ≠ .newline)
    (heof : t.cursor.kind ≠ .eof) : (Parser.moduleItem v t).2.remaining < t.remaining := by
  have hrun := (moduleItem (E := never [] 0) (m := t.remaining) v).run t t
    ⟨⟨atBack_refl t, Nat.le_refl _⟩, hnewline, heof⟩
  rcases hrun with hnever | ⟨-, -, hlt⟩
  · exact hnever.elim
  · exact hlt

private theorem moduleStep_eq (v : Version) (stmts : List Stmt) (t : ParserState) :
    moduleStep v stmts t =
      if (t.move Cursor.skipNewlines).cursor.kind = .eof then
        (.finished stmts, t.move Cursor.skipNewlines)
      else
        (.again (stmts ++ (Parser.moduleItem v (t.move Cursor.skipNewlines)).1),
          (Parser.moduleItem v (t.move Cursor.skipNewlines)).2) := by
  show (if (t.move Cursor.skipNewlines).cursor.kind == .eof then
      (Pure.pure (.finished stmts) : Parser (LoopStep (List Stmt) (List Stmt)))
    else do
      let more ← Parser.moduleItem v
      Pure.pure (.again (stmts ++ more))) (t.move Cursor.skipNewlines) = _
  by_cases hk : (t.move Cursor.skipNewlines).cursor.kind = .eof
  · rw [if_pos hk, if_pos (beq_iff_eq.2 hk)]
    rfl
  · rw [if_neg hk, if_neg (fun heq => hk (beq_iff_eq.1 heq))]
    rfl

/-- At the end of the input the loop over a module ends. -/
theorem moduleLoop_eof (v : Version) (stmts : List Stmt) {t : ParserState}
    (hk : (t.move Cursor.skipNewlines).cursor.kind = .eof) :
    Parser.loop id (moduleStep v) stmts t = (stmts, t.move Cursor.skipNewlines) := by
  rw [loop_eq, moduleStep_eq, if_pos hk]

/-- Before that it goes round once for each item. -/
theorem moduleLoop_item (v : Version) (stmts : List Stmt) {t : ParserState}
    (hk : (t.move Cursor.skipNewlines).cursor.kind ≠ .eof) :
    Parser.loop id (moduleStep v) stmts t
      = Parser.loop id (moduleStep v)
        (stmts ++ (Parser.moduleItem v (t.move Cursor.skipNewlines)).1)
        (Parser.moduleItem v (t.move Cursor.skipNewlines)).2 := by
  have hlt := Nat.lt_of_lt_of_le (moduleItem_lt v (Cursor.kind_skipNewlines t.cursor) hk)
    (Onward.skipNewlines t).remaining_le
  rw [loop_eq, moduleStep_eq, if_neg hk]
  exact if_pos hlt

/-- Newlines between two items are passed over. -/
theorem moduleLoop_skipNewlines (v : Version) (stmts : List Stmt) (s : ParserState) :
    Parser.loop id (moduleStep v) stmts s
      = Parser.loop id (moduleStep v) stmts (s.move Cursor.skipNewlines) := by
  have hskip : (s.move Cursor.skipNewlines).move Cursor.skipNewlines
      = s.move Cursor.skipNewlines := by
    rw [ParserState.move, Cursor.skipNewlines_of_ne (Cursor.kind_skipNewlines s.cursor)]
  by_cases hk : (s.move Cursor.skipNewlines).cursor.kind = .eof
  · rw [moduleLoop_eof v stmts hk, moduleLoop_eof v stmts (by rw [hskip]; exact hk), hskip]
  · rw [moduleLoop_item v stmts hk, moduleLoop_item v stmts (by rw [hskip]; exact hk), hskip]

/-- Where the part in front is used up, the other part comes next. -/
private theorem after_of_eof {rest : List Token} {hrest : NewStatement rest} {s t : ParserState}
    (h : Meets (.front rest hrest) .anywhere 0 s t) (hk : t.cursor.kind = .eof) :
    s.cursor.after = rest := by
  obtain ⟨ts, size, ht, hs, hlaid⟩ := h.2.1.after
  cases ts with
  | nil => exact hs
  | cons u us =>
    rw [Cursor.kind_eq, Cursor.peek_of_after ht] at hk
    exact absurd hk hlaid.kind_ne_eof

/-- A part in front without faults is parsed in the whole text as it is parsed alone, and the
    loop goes on behind it. -/
theorem moduleBody_front (v : Version) {rest : List Token} {hrest : NewStatement rest}
    {s t : ParserState} (h : Meets (.front rest hrest) .anywhere 0 s t) (stmts : List Stmt)
    (hclean : (Parser.loop id (moduleStep v) stmts t).2.errors = []) :
    ∃ s', Parser.loop id (moduleStep v) stmts s
        = Parser.loop id (moduleStep v) (Parser.loop id (moduleStep v) stmts t).1 s'
      ∧ s'.cursor.after = rest ∧ s'.cursor.size = s.cursor.size ∧ s'.errors = [] := by
  suffices ∀ m, ∀ s t stmts, t.remaining = m → Meets (.front rest hrest) .anywhere 0 s t →
      (Parser.loop id (moduleStep v) stmts t).2.errors = [] →
      ∃ s', Parser.loop id (moduleStep v) stmts s
          = Parser.loop id (moduleStep v) (Parser.loop id (moduleStep v) stmts t).1 s'
        ∧ s'.cursor.after = rest ∧ s'.cursor.size = s.cursor.size ∧ s'.errors = [] by
    exact this _ s t stmts rfl h hclean
  -- Induction on the number of tokens left of the part in front. Every item reads some of them.
  intro m
  induction m using Nat.strongRecOn with
  | ind m ih =>
    intro s t stmts hm h hclean
    have hskip := Meets.skipNewlines h
    by_cases hk : (t.move Cursor.skipNewlines).cursor.kind = .eof
    · refine ⟨s.move Cursor.skipNewlines, ?_, after_of_eof hskip hk,
        (Onward.skipNewlines s).size, hskip.2.1.errors.1⟩
      rw [moduleLoop_eof v stmts hk]
      exact moduleLoop_skipNewlines v stmts s
    · have hahead := hskip.ahead_of_ne hk
      have hks : (s.move Cursor.skipNewlines).cursor.kind ≠ .eof := by
        rw [hahead.kind]
        exact hk
      rw [moduleLoop_item v stmts hk] at hclean ⊢
      rw [moduleLoop_item v stmts hks]
      have honward := (moduleBody_back v [] 0 []
        (stmts ++ (Parser.moduleItem v (t.move Cursor.skipNewlines)).1)).onward
        (Parser.moduleItem v (t.move Cursor.skipNewlines)).2
      have hrun := (moduleItem (E := faulty (.front rest hrest)) v).run _ _
        ⟨⟨hahead, Nat.le_refl _⟩, Cursor.kind_skipNewlines t.cursor, hk⟩
      rcases hrun with hfault | ⟨hval, hmeets, hlt⟩
      -- A fault in an item would still be there at the end.
      · exact absurd (honward.errors_eq_nil hclean) hfault
      · have hsize : (Parser.moduleItem v (s.move Cursor.skipNewlines)).2.cursor.size
            = s.cursor.size :=
          ((moduleItem (E := never [] 0) (m := 0) v).onward _).size.trans
            (Onward.skipNewlines s).size
        have hsame : (Parser.moduleItem v (s.move Cursor.skipNewlines)).1
            = (Parser.moduleItem v (t.move Cursor.skipNewlines)).1 := by
          rw [hval, Seam.offset, ← shiftBody_eq_map, shiftBody_zero]
        rw [hsame, ← hsize]
        refine ih _ ?_ _ _ _ rfl hmeets hclean
        rw [← hm]
        exact Nat.lt_of_lt_of_le hlt (Onward.skipNewlines t).remaining_le

end Sim

/-! ### Two texts in a row -/

/-- The last newline among the tokens is the last byte of a text of `size` bytes. -/
def EndsLine (size : Nat) (ts : List Token) : Prop :=
  ∃ t, (ts.filter (·.kind == .newline)).getLast? = some t ∧ t.span = ⟨size - 1, size⟩

/-- Such a text is not empty, so that newline stands for a character. -/
private theorem endsAt_of_endsLine (v : Version) {a : String}
    (h : EndsLine a.utf8ByteSize (tokenize v a)) :
    Lexer.EndsAt a.utf8ByteSize (tokenize v a) := by
  obtain ⟨t, hlast, hspan⟩ := h
  have hmem := List.mem_of_getLast? hlast
  rw [List.mem_filter] at hmem
  refine ⟨t, hmem.1, eq_of_beq hmem.2, ?_, by rw [hspan]⟩
  rw [hspan]
  by_cases hsize : a.utf8ByteSize = 0
  · rw [String.utf8ByteSize_eq_zero_iff] at hsize
    subst hsize
    have hempty : tokenize v "" = [Token.endOfInput 0] := by
      exact Lexer.run_fresh_nil v .initial 0
    rw [hempty] at hmem
    cases List.mem_singleton.1 hmem.1
    cases hmem.2
  · show a.utf8ByteSize - 1 < a.utf8ByteSize
    omega

/-- The tree of two texts in a row. The first text has no faults and ends its last line; the
    second one begins at the margin, and with a statement of its own. -/
theorem SyntaxTree.parse_append (v : Version) (a b : String)
    (hclean : (SyntaxTree.parse v a).errors = [])
    (hline : EndsLine a.utf8ByteSize (tokenize v a))
    (hflush : Lexer.Flush b.toList)
    (hfirst : ∀ t ∈ (tokenize v b).head?, t.kind.continuesStatement = false) :
    (SyntaxTree.parse v (a ++ b)).body
        = (SyntaxTree.parse v a).body ++ shiftBody a.utf8ByteSize (SyntaxTree.parse v b).body
      ∧ (SyntaxTree.parse v (a ++ b)).errors
        = (SyntaxTree.parse v b).errors.map (SyntaxError.shift a.utf8ByteSize) := by
  obtain ⟨ts, hts, hlaid, happend⟩ := tokenize_append v (endsAt_of_endsLine v hline) hflush
  -- The whole text begins with the tokens of the first part and goes on with those of the second.
  obtain ⟨u, us, hu, hplain⟩ := tokenize_flush_cons v hflush
  have hrest : NewStatement (shiftTokens a.utf8ByteSize (tokenize v b)) := by
    rw [hu] at hfirst ⊢
    exact ⟨_, _, rfl, hplain, hfirst u rfl⟩
  have hfront : Meets (.front _ hrest) .anywhere 0 (Parser.start v (a ++ b)) (Parser.start v a) :=
    ⟨Stage.noConfusion, ⟨rfl, ⟨ts, a.utf8ByteSize, hts, happend, hlaid⟩, rfl, rfl⟩,
      Stage.noConfusion, Stage.noConfusion⟩
  obtain ⟨s', hloop, hafter, hsize, herrors⟩ := Sim.moduleBody_front v hfront [] hclean
  have hback : Meets (.back s'.cursor.before a.utf8ByteSize) .anywhere 0 s'
      (Parser.start v b) := by
    refine ⟨rfl, hafter, ?_, herrors⟩
    rw [hsize]
    show (a ++ b).utf8ByteSize = b.utf8ByteSize + a.utf8ByteSize
    rw [String.utf8ByteSize_append, Nat.add_comm]
  -- Behind the first part nothing is left of it but its statements.
  have hrun := (Sim.moduleBody_back v s'.cursor.before a.utf8ByteSize
    (SyntaxTree.parse v a).body []).run s' (Parser.start v b) hback
  rcases hrun with hnever | ⟨hbody, hmeets⟩
  · exact hnever.elim
  · have hnil : Sim.joined (SyntaxTree.parse v a).body a.utf8ByteSize []
        = (SyntaxTree.parse v a).body := List.append_nil _
    have hwhole : Parser.moduleBody v (Parser.start v (a ++ b))
        = Parser.loop id (Parser.moduleStep v) (SyntaxTree.parse v a).body s' := hloop
    rw [hnil, ← hwhole] at hbody hmeets
    exact ⟨hbody, hmeets.errors⟩

/-- A class whose block is still open at the end of the first text. -/
theorem parse_append_class_assign :
    (SyntaxTree.parse .v37 ("class A:\n  x = 1\n" ++ "y = A\n")).body
        = (SyntaxTree.parse .v37 "class A:\n  x = 1\n").body
          ++ shiftBody 17 (SyntaxTree.parse .v37 "y = A\n").body
      ∧ (SyntaxTree.parse .v37 ("class A:\n  x = 1\n" ++ "y = A\n")).errors
        = (SyntaxTree.parse .v37 "y = A\n").errors.map (SyntaxError.shift 17) := by
  refine SyntaxTree.parse_append .v37 "class A:\n  x = 1\n" "y = A\n" ?_ ?_ ?_ ?_
  · decide +kernel
  · exact ⟨⟨.newline, ⟨16, 17⟩, "\n"⟩, by decide +kernel, by decide +kernel⟩
  · exact Lexer.flush_of_not_isSpace (c := 'y') (by decide) (by decide) (by decide)
  · decide +kernel

end PyAtlas
