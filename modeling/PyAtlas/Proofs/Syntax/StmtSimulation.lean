import PyAtlas.Proofs.Syntax.ExprSimulation
import PyAtlas.Syntax.ParseStmt

/-!
# Statements are read in step

Every production for statements runs in step on a whole text and on a part of it. A line is
left by its newline only, and where a line or a block has been read, the productions look at
most at the word that comes next: whether it goes on with the statement, whether it opens a
block, or whether it is one more decorator.

## Key results
- `Sim.smallStatements`: small statements end with their line.
- `Sim.indentedBody`: a body is left by the dedent that ends it.
- `Sim.statement`: a statement, given the bodies in it.
-/

namespace PyAtlas

namespace Sim

open PyAtlas.Parser

variable {σ : Seam} {E : Escape σ} {k : Nat}

/-- A token that may come next inside a line. -/
private theorem eatsIf (next : TokenKind) (hnext : next.isLayout = false) :
    InLine E k id (Parser.eats next) (Parser.eats next) :=
  (eats next hnext fun _ _ => ahead_of_live).post fun found _ _ h => by
    cases found with
    | true => exact h
    | false => exact h.1

/-! ### Passing over what is not kept -/

/-- A step whose outcome has no place. -/
private theorem pureStep {α β : Type} (step : LoopStep α β) :
    InLine E k (mapStep id id) (Pure.pure step) (Pure.pure step) :=
  .pure (by cases step <;> rfl) fun _ _ h => h

/-- A malformed token is reported and passed over. -/
private theorem passError {γ δ : Type} {ψ : γ → δ} (cause : LexError) (token : Token)
    {p : Parser δ} {q : Parser γ} (h : InLine E k ψ p q) :
    Sim E (fun s t => Live σ k s t ∧ t.cursor.peek = token) (fun _ => Live σ k) ψ
      (do Parser.report (.lexical cause) (token.shift σ.offset).span; Parser.advance; p)
      (do Parser.report (.lexical cause) token.span; Parser.advance; q) := by
  refine ((report rfl fun _ _ h => h).begun.pre fun _ _ h => h.1).bind fun _ => ?_
  exact ((advance_lost).begun.post fun _ _ _ => live_of_lost).bind fun _ => h

private theorem isLineEnd_of_ne {token : Token} (hnewline : token.kind ≠ .newline)
    (heof : token.kind ≠ .eof) : token.kind.isLineEnd = false := by
  revert hnewline heof
  cases token.kind <;> simp [TokenKind.isLineEnd]

theorem skipHeader : InLine E k id Parser.skipHeader Parser.skipHeader := by
  unfold Parser.skipHeader Parser.restOfHeader
  refine loop_inLine id (fun (depth, lambdas) => ?_) (by intro _; rfl) (0, 0)
  refine (peek fun _ _ => ahead_of_live).bind fun token => ?_
  have hmissing : Sim E (fun s t => Live σ k s t ∧ t.cursor.peek = token) (fun _ => Live σ k) id
      (Parser.expected .colon (token.shift σ.offset)) (Parser.expected .colon token) :=
    ((expected rfl fun _ _ h => h).begun.pre fun _ _ h => h.1).post fun _ _ _ => live_of_lost
  rw [Token.shift_kind]
  split
  · exact hmissing.bind fun _ => pureStep _
  · exact hmissing.bind fun _ => pureStep _
  · rename_i op hk
    refine (advance_lined (by rw [hk]; rfl)).bind fun _ => ?_
    refine .ite (fun _ => ?_) fun _ => pureStep _
    exact .ite (fun _ => pureStep _) fun _ => pureStep _
  · rename_i hk
    exact (advance_lined (by rw [hk]; rfl)).bind fun _ => pureStep _
  · exact passError _ token (pureStep _)
  · rename_i hnewline heof _ _ _
    exact (advance_lined (isLineEnd_of_ne hnewline heof)).bind fun _ => pureStep _

theorem expectColon : InLine E k id Parser.expectColon Parser.expectColon := by
  unfold Parser.expectColon
  refine (peek fun _ _ => ahead_of_live).bind fun token => ?_
  refine cond (eats _ rfl fun _ _ h => ahead_of_live h.1) ?_ ?_
  · exact .pure rfl fun _ _ h => h
  · refine ((expected rfl fun _ _ h => h).begun.pre fun _ _ h => h.1.1).bind fun _ => ?_
    refine .ite (fun _ => (skipHeader).pre fun _ _ => live_of_lost) fun _ => ?_
    exact .pure rfl fun _ _ => live_of_lost

theorem skipOperands : InLine E k id Parser.skipOperands Parser.skipOperands := by
  unfold Parser.skipOperands
  refine loop_inLine id (fun depth => ?_) (by intro _; rfl) 0
  refine (peek fun _ _ => ahead_of_live).bind fun token => ?_
  rw [Token.shift_kind]
  split
  · exact (pureStep _).pre fun _ _ h => h.1
  · exact (pureStep _).pre fun _ _ h => h.1
  · rename_i op hk
    refine .ite (fun _ => (pureStep _).pre fun _ _ h => h.1) fun _ => ?_
    exact (advance_lined (by rw [hk]; rfl)).bind fun _ => pureStep _
  · exact passError _ token (pureStep _)
  · rename_i hnewline heof _ _
    exact (advance_lined (isLineEnd_of_ne hnewline heof)).bind fun _ => pureStep _

/-! ### Imports -/

/-- The name so far and its place. -/
abbrev shiftName (n : Nat) : String × Span → String × Span := Prod.map id (Span.shift n)

theorem moreSegments (name : String) (span : Span) :
    InLine E k (shiftName σ.offset) (Parser.moreSegments name (span.shift σ.offset))
      (Parser.moreSegments name span) := by
  unfold Parser.moreSegments
  refine loop_inLine (shiftName σ.offset) (fun (name, span) => ?_) (by intro _; rfl) (name, span)
  refine cond (at? _ fun _ _ => ahead_of_live) ?_ (.pure rfl fun _ _ h => h.1)
  -- The dot belongs to the line, so the token behind it is the same in both runs.
  have hdot : ∀ s t, Live σ k s t ∧ t.cursor.kind = .operator .dot →
      t.cursor.kind.isLayout = false := by
    rintro s t ⟨-, hk⟩
    rw [hk]
    rfl
  refine (look (φ := Token.shift σ.offset) fun s t h => h.1.1.peekNth_one (hdot s t h)).bind
    fun token => ?_
  rw [identifier?_shift]
  cases hname : identifier? token with
  | none => exact .pure rfl fun _ _ h => h.1.1
  | some segment =>
    have hplain := isLayout_of_identifier? hname
    refine (advance_to (P := fun c => c.peek = token)
      (fun s t h => ⟨h.1.1.1, hdot s t h.1⟩) fun s t h => ?_).bind fun _ => ?_
    · rw [Cursor.peek_advance]
      exact h.2
    · refine (advance_peeked hplain fun _ _ => ahead_of_live).bind fun _ => ?_
      refine .pure ?_ fun _ _ h => h
      simp [mapStep, Span.shift_merge]

theorem dottedName :
    InLine E k (Option.map (shiftName σ.offset)) Parser.dottedName Parser.dottedName := by
  unfold Parser.dottedName
  refine (expectIdentifier).bind fun first => ?_
  cases first with
  | none => exact .pure rfl fun _ _ h => h
  | some first => exact (moreSegments first.name first.span).map (fun _ => rfl) fun _ _ _ h => h

theorem aliasFor (name : String) (span : Span) :
    InLine E k (Option.map (Alias.shift σ.offset)) (Parser.aliasFor name (span.shift σ.offset))
      (Parser.aliasFor name span) := by
  unfold Parser.aliasFor
  refine cond (eats _ rfl fun _ _ => ahead_of_live) ?_ ?_
  · refine (expectIdentifier).bind fun ident => ?_
    cases ident with
    | none => exact .pure rfl fun _ _ h => h
    | some ident =>
      refine .pure ?_ fun _ _ h => h
      simp [Alias.shift, Span.shift_merge]
  · exact .pure rfl fun _ _ h => h.1

theorem moduleAlias :
    InLine E k (Option.map (Alias.shift σ.offset)) Parser.moduleAlias Parser.moduleAlias := by
  unfold Parser.moduleAlias
  refine (dottedName).bind fun name => ?_
  cases name with
  | none => exact .pure rfl fun _ _ h => h
  | some name => exact aliasFor name.1 name.2

theorem memberAlias :
    InLine E k (Option.map (Alias.shift σ.offset)) Parser.memberAlias Parser.memberAlias := by
  unfold Parser.memberAlias
  refine (expectIdentifier).bind fun ident => ?_
  cases ident with
  | none => exact .pure rfl fun _ _ h => h
  | some ident => exact aliasFor ident.name ident.span

theorem moduleAliases :
    InLine E k (List.map (Alias.shift σ.offset)) Parser.moduleAliases Parser.moduleAliases := by
  unfold Parser.moduleAliases Parser.moreModuleAliases
  refine loop_inLine (List.map (Alias.shift σ.offset)) (fun names => ?_) (by intro _; rfl) []
  refine (moduleAlias).bind fun name => ?_
  cases name with
  | none => exact .pure rfl fun _ _ h => h
  | some name =>
    simp only [Option.map_some, map_concat]
    refine cond (eats _ rfl fun _ _ => ahead_of_live) ?_ ?_
    · exact .pure rfl fun _ _ h => h
    · exact .pure rfl fun _ _ h => h.1

theorem memberAliases (parenthesized : Bool) :
    InLine E k (List.map (Alias.shift σ.offset)) (Parser.memberAliases parenthesized)
      (Parser.memberAliases parenthesized) := by
  unfold Parser.memberAliases Parser.moreMemberAliases
  refine loop_inLine (List.map (Alias.shift σ.offset)) (fun names => ?_) (by intro _; rfl) []
  refine (inspect fun _ _ h => by rw [(ahead_of_live h).kind]).bind fun closes => ?_
  refine .ite (fun _ => .pure rfl fun _ _ h => h.1) fun _ => ?_
  refine ((memberAlias).pre fun _ _ h => h.1).bind fun name => ?_
  cases name with
  | none => exact .pure rfl fun _ _ h => h
  | some name =>
    simp only [Option.map_some, map_concat]
    refine cond (eats _ rfl fun _ _ => ahead_of_live) ?_ ?_
    · exact .pure rfl fun _ _ h => h
    · exact .pure rfl fun _ _ h => h.1

/-- Where a statement may begin. -/
def Ready (σ : Seam) (k : Nat) : Rel := fun s t =>
  Meets σ .ahead k s t ∧ t.cursor.kind.isLayout = false

theorem importStatement :
    Sim E (Ready σ k) (fun _ => Live σ k) (Stmt.shift σ.offset) Parser.importStatement
      Parser.importStatement := by
  unfold Parser.importStatement
  refine (next fun _ _ h => h).bind fun word => ?_
  refine (moduleAliases).bind fun names => ?_
  refine (spanFrom rfl fun _ _ h => h).bind fun span => ?_
  exact .pure rfl fun _ _ h => h

theorem importLevel : InLine E k id Parser.importLevel Parser.importLevel := by
  unfold Parser.importLevel Parser.morePoints
  refine loop_inLine id (fun level => ?_) (by intro _; rfl) 0
  refine (kind fun _ _ => ahead_of_live).bind fun next => ?_
  simp only [id_eq]
  split
  · exact (advance fun s t h => ⟨h.1.1, by rw [h.2]; rfl⟩).bind fun _ => pureStep _
  · exact (advance fun s t h => ⟨h.1.1, by rw [h.2]; rfl⟩).bind fun _ => pureStep _
  · exact (pureStep _).pre fun _ _ h => h.1

theorem importNames :
    InLine E k (ImportNames.shift σ.offset) Parser.importNames Parser.importNames := by
  unfold Parser.importNames
  refine (eat _ rfl fun _ _ => ahead_of_live).bind fun star => ?_
  cases star with
  | some star => exact .pure rfl fun _ _ h => h
  | none =>
    simp only [Option.map_none]
    refine ((eatsIf _ rfl).pre fun _ _ h => h.1).bind fun parenthesized => ?_
    refine (memberAliases parenthesized).bind fun names => ?_
    refine .ite (fun _ => ?_) fun _ => .pure rfl fun _ _ h => h
    refine (peek fun _ _ => ahead_of_live).bind fun token => ?_
    refine cond_not (eats _ rfl fun _ _ h => ahead_of_live h.1) ?_ ?_
    · exact .pure rfl fun _ _ h => h
    · refine ((expected rfl fun _ _ h => h).begun.pre fun _ _ h => h.1.1).bind fun _ => ?_
      exact .pure rfl fun _ _ => live_of_lost

theorem abandonOperands (start : Span) :
    InLine E k (Stmt.shift σ.offset) (Parser.abandonOperands (start.shift σ.offset))
      (Parser.abandonOperands start) := by
  unfold Parser.abandonOperands
  refine (skipOperands).bind fun _ => ?_
  refine (spanFrom rfl fun _ _ h => h).bind fun span => ?_
  exact .pure rfl fun _ _ h => h

theorem importFromModule (start : Span) (module : Option String) (level : Nat) :
    InLine E k (Stmt.shift σ.offset)
      (Parser.importFromModule (start.shift σ.offset) module level)
      (Parser.importFromModule start module level) := by
  unfold Parser.importFromModule
  refine (peek fun _ _ => ahead_of_live).bind fun token => ?_
  refine cond (eats _ rfl fun _ _ h => ahead_of_live h.1) ?_ ?_
  · refine (importNames).bind fun names => ?_
    refine (spanFrom rfl fun _ _ h => h).bind fun span => ?_
    exact .pure rfl fun _ _ h => h
  · refine ((expected rfl fun _ _ h => h).begun.pre fun _ _ h => h.1.1).bind fun _ => ?_
    exact (abandonOperands start).pre fun _ _ => live_of_lost

theorem importFromStatement :
    Sim E (Ready σ k) (fun _ => Live σ k) (Stmt.shift σ.offset) Parser.importFromStatement
      Parser.importFromStatement := by
  unfold Parser.importFromStatement
  refine (next fun _ _ h => h).bind fun word => ?_
  refine (importLevel).bind fun level => ?_
  refine (inspect fun _ _ h => by rw [(ahead_of_live h).kind]).bind fun imports => ?_
  refine .ite (fun _ => ?_) fun _ => ?_
  · exact (importFromModule word.span none level).pre fun _ _ h => h.1
  · refine ((dottedName).pre fun _ _ h => h.1).bind fun name => ?_
    cases name with
    | some name => exact importFromModule word.span (some name.1) level
    | none => exact abandonOperands word.span

/-! ### Small statements -/

theorem requireFeature (v : Version) (feature : Feature) (span : Span) :
    InLine E k id (Parser.requireFeature v feature (span.shift σ.offset))
      (Parser.requireFeature v feature span) := by
  unfold Parser.requireFeature
  refine .ite (fun _ => ?_) fun _ => .pure rfl fun _ _ h => h
  exact (report rfl fun _ _ h => h).begun.post fun _ _ _ => live_of_lost

theorem assignedValues (v : Version) (first : Expr) :
    InLine E k (Prod.map (List.map (Expr.shift σ.offset)) (Expr.shift σ.offset))
      (Parser.assignedValues v (first.shift σ.offset)) (Parser.assignedValues v first) := by
  unfold Parser.assignedValues
  refine (starExpressions v).bind fun value => ?_
  refine loop_inLine (Prod.map (List.map (Expr.shift σ.offset)) (Expr.shift σ.offset))
    (fun (targets, value) => ?_) (by intro _; rfl) ([first], value)
  refine cond (eats _ rfl fun _ _ => ahead_of_live) ?_ ?_
  · refine (starExpressions v).bind fun next => ?_
    refine .pure ?_ fun _ _ h => h
    simp [mapStep]
  · exact .pure rfl fun _ _ h => h.1

theorem expressionStatement (v : Version) :
    Sim E (Meets σ .ahead k) (fun _ => Meets σ .lined k) (Stmt.shift σ.offset)
      (Parser.expressionStatement v) (Parser.expressionStatement v) := by
  unfold Parser.expressionStatement
  refine (peek fun _ _ h => h).bind fun start => ?_
  refine ((starExpressions_ahead v).pre fun _ _ h => h.1).bind fun first => ?_
  refine (peek fun _ _ h => h.1.ahead).bind fun token => ?_
  -- What can go on with a statement is no token that is left alone where an expression lacks.
  have hread : token.kind.isLayout = false → token.kind.endsOperand = false →
      Sim E (fun s t => Tried σ k s t ∧ t.cursor.peek = token) (fun _ => Live σ k) id
        Parser.advance Parser.advance := fun hplain hend =>
    advance_peeked (I := Live σ k) hplain (fun _ _ => ahead_of_live) |>.pre fun s t h =>
      ⟨⟨h.1.1, h.1.2 (by rw [Cursor.kind_eq, h.2]; exact hend)⟩, h.2⟩
  rw [Token.shift_kind]
  split
  · rename_i hk
    refine (hread (by rw [hk]; rfl) (by rw [hk]; rfl)).bind fun _ => ?_
    refine (assignedValues v first).bind fun (targets, value) => ?_
    refine (spanFrom rfl fun _ _ h => h).bind fun span => ?_
    exact .pure rfl fun _ _ h => h.1
  · rename_i op hk
    refine .ite (fun hcolon => ?_) fun _ => ?_
    · obtain rfl : op = .colon := eq_of_beq hcolon
      -- The end of an annotated assignment is the same with a value and without one.
      have hlast : ∀ (hint : Expr) (value : Option Expr),
          Sim E (Live σ k) (fun _ => Meets σ .lined k) (Stmt.shift σ.offset)
            (do Pure.pure (.annAssign (first.shift σ.offset) (hint.shift σ.offset)
              (value.map (Expr.shift σ.offset))
              (← Parser.spanFrom (start.shift σ.offset).span)))
            (do Pure.pure (.annAssign first hint value (← Parser.spanFrom start.span))) := by
        intro hint value
        refine (spanFrom rfl fun _ _ h => h).bind fun span => ?_
        exact .pure rfl fun _ _ h => h.1
      refine (hread (by rw [hk]; rfl) (by rw [hk]; rfl)).bind fun _ => ?_
      refine (requireFeature v _ token.span).bind fun _ => ?_
      refine (expression v).bind fun hint => ?_
      refine cond (eats _ rfl fun _ _ => ahead_of_live) ?_ ?_
      · refine ((starExpressions v).map (ψ := Option.map (Expr.shift σ.offset))
          (fun _ => rfl) fun _ _ _ h => h).bind fun value => hlast hint value
      · exact (hlast hint none).pre fun _ _ h => h.1
    · refine .ite (fun haugmented => ?_) fun _ => .pure rfl fun _ _ h => h.1.1
      refine (hread (by rw [hk]; rfl) ?_).bind fun _ => ?_
      · rw [hk]
        revert haugmented
        cases op <;> simp [Operator.isAugmented, TokenKind.endsOperand, Operator.isClosing]
      · refine (starExpressions v).bind fun value => ?_
        refine (spanFrom rfl fun _ _ h => h).bind fun span => ?_
        exact .pure rfl fun _ _ h => h.1
  · exact .pure rfl fun _ _ h => h.1.1

theorem smallStatement (v : Version) :
    Sim E (Meets σ .ahead k) (fun _ => Meets σ .lined k) (Stmt.shift σ.offset)
      (Parser.smallStatement v) (Parser.smallStatement v) := by
  unfold Parser.smallStatement
  refine (peek fun _ _ h => h).bind fun token => ?_
  have hready : token.kind.isLayout = false → ∀ s t,
      Meets σ .ahead k s t ∧ t.cursor.peek = token → Ready σ k s t :=
    fun hplain s t h => ⟨h.1, by rw [Cursor.kind_eq, h.2]; exact hplain⟩
  rw [Token.shift_kind]
  split
  · rename_i hk
    exact ((importStatement).pre (hready (by rw [hk]; rfl))).post fun _ _ _ h => h.1
  · rename_i hk
    exact ((importFromStatement).pre (hready (by rw [hk]; rfl))).post fun _ _ _ h => h.1
  · rename_i word _ _ hk
    cases simpleKind? word with
    | none => exact (expressionStatement v).pre fun _ _ h => h.1
    | some simple =>
      refine (advance_peeked (by rw [hk]; rfl) fun _ _ h => h).bind fun _ => ?_
      refine (skipOperands).bind fun _ => ?_
      refine (spanFrom rfl fun _ _ h => h).bind fun span => ?_
      exact .pure rfl fun _ _ h => h.1
  · exact (expressionStatement v).pre fun _ _ h => h.1

/-- A token has been read, or one of a line comes next. -/
def Fresh (m : Nat) (t : ParserState) : Prop :=
  t.remaining < m ∨ t.remaining ≤ m ∧ t.cursor.kind.isLayout = false

theorem Fresh.onward {m : Nat} {t t' : ParserState} (h : Onward t t') (ht : Fresh m t) :
    Fresh m t' := by
  have hle := h.remaining_le
  rcases ht with hlt | ⟨hm, hplain⟩
  · exact .inl (Nat.lt_of_le_of_lt hle hlt)
  · by_cases hlt : t'.remaining < t.remaining
    · exact .inl (Nat.lt_of_lt_of_le hlt hm)
    · have hafter : t'.cursor.after = t.cursor.after :=
        h.after.eq_of_length (Nat.le_antisymm hle (Nat.not_lt.1 hlt))
      exact .inr ⟨Nat.le_trans hle hm, by rw [Cursor.kind_of_after_eq hafter]; exact hplain⟩

theorem Fresh.le {m : Nat} {t : ParserState} (h : Fresh m t) : t.remaining ≤ m :=
  h.elim Nat.le_of_lt And.left

theorem Fresh.lt_of_layout {m : Nat} {t : ParserState} (h : Fresh m t)
    (hk : t.cursor.kind.isLayout = true) : t.remaining < m := by
  rcases h with hlt | ⟨-, hplain⟩
  · exact hlt
  · rw [hplain] at hk
    cases hk

/-- After a line has been passed over fewer tokens are left. -/
theorem Fresh.skipLine {m : Nat} {t : ParserState} (h : Fresh m t) :
    (t.move Cursor.skipLine).remaining < m := by
  rcases h with hlt | ⟨hm, hplain⟩
  · exact Nat.lt_of_le_of_lt (Onward.skipLine t).remaining_le hlt
  · exact Nat.lt_of_lt_of_le (Cursor.remaining_skipLine_lt (TokenKind.ne_eof_of_plain hplain)) hm

/-- Small statements end with their line. -/
theorem smallStatements (v : Version) (m : Nat) :
    Sim E (fun s t => Meets σ .ahead k s t ∧ Fresh m t) (fun _ => Within m (Meets σ .anywhere k))
      (List.map (Stmt.shift σ.offset)) (Parser.smallStatements v) (Parser.smallStatements v) := by
  unfold Parser.smallStatements
  refine loop_of_left (φ := List.map (Stmt.shift σ.offset))
    (I := fun _ s t => Meets σ .ahead k s t ∧ Fresh m t) (fun m' stmts => ?_)
    (fun _ _ _ h => ⟨k, h.1.anywhere⟩) (by intro _; rfl) []
  refine (((smallStatement v).keep Fresh.onward).pre fun _ _ h => h.1).bind fun stmt => ?_
  simp only [map_concat]
  generalize stmts ++ [stmt] = stmts
  refine (peek fun _ _ h => h.1.ahead).bind fun token => ?_
  -- Where layout comes next, some token has been read.
  have hlayout : token.kind.isLayout = true → ∀ s t,
      (Meets σ .lined k s t ∧ Fresh m t) ∧ t.cursor.peek = token →
        Within m (fun s t => Meets σ .lined k s t ∧ t.cursor.peek = token) s t := by
    rintro hk s t ⟨⟨hlined, hfresh⟩, hpeek⟩
    refine ⟨⟨hlined, hpeek⟩, hfresh.lt_of_layout ?_⟩
    rw [Cursor.kind_eq, hpeek]
    exact hk
  rw [Token.shift_kind]
  split
  · rename_i hk
    refine ((advance_peeked (I := fun s t => Meets σ .lined k s t ∧ Fresh m t) (by rw [hk]; rfl)
      fun _ _ h => h.1).reads (m := m) (fun _ => rfl) fun s t h => ⟨?_, h.1.2.le⟩).bind
      fun _ => ?_
    · rw [Cursor.kind_eq, h.2, hk]
      exact TokenKind.noConfusion
    · refine (kind fun _ _ h => ahead_of_live h.1).bind fun next => ?_
      refine .ite (fun _ => ?_) fun _ => ?_
      · refine ((skipNewlines).within.pre fun _ _ h => ⟨h.1.1.1.anywhere, h.1.2⟩).bind fun _ => ?_
        exact .pure rfl fun _ _ h => ⟨h.1.1, h.2⟩
      · exact .pure rfl fun _ _ h =>
          ⟨⟨ahead_of_live h.1.1, .inl h.1.2⟩, .inr ⟨h.1.1.1.anywhere, h.1.2⟩⟩
  · rename_i hk
    refine ((move Onward.advance (R := Meets σ .anywhere k) fun s t h => ?_).within.pre
      (hlayout (by rw [hk]; rfl))).bind fun _ => ?_
    · exact h.1.advance_newline (by rw [Cursor.kind_eq, h.2]; exact hk)
    · exact .pure rfl fun _ _ h => h
  · rename_i hk
    refine .pure rfl fun s t h => ?_
    obtain ⟨⟨hlined, -⟩, hlt⟩ := hlayout (by rw [hk]; rfl) s t h
    exact ⟨hlined.anywhere, hlt⟩
  · rename_i hk
    refine .pure rfl fun s t h => ?_
    obtain ⟨⟨hlined, -⟩, hlt⟩ := hlayout (by rw [hk]; rfl) s t h
    exact ⟨hlined.anywhere, hlt⟩
  · refine (((expected rfl fun _ _ h => h).keep Fresh.onward).pre fun _ _ h => h.1).bind
      fun _ => ?_
    refine (move Onward.skipLine (R := Within m (Meets σ .lost k)) fun s t h => ?_).bind
      fun _ => ?_
    · exact ⟨h.1.skipLine_lost, h.2.skipLine⟩
    · exact .pure rfl fun _ _ h => ⟨h.1.of_lost .anywhere k, h.2⟩

/-! ### Bodies -/

/-- Some tokens of a statement have been read. -/
abbrev Past (σ : Seam) (m k : Nat) : Rel := Within m (Begun (Meets σ .anywhere k))

/-- Parsers of bodies, which are called where fewer than `m` tokens are left: the indent has
    been read, and the dedent is. -/
def InBlock (E : Escape σ) (m : Nat) (p q : Parser (List Stmt)) : Prop :=
  ∀ k, Sim E (Within m (Meets σ .anywhere (k + 1))) (fun _ => Meets σ .anywhere k)
    (List.map (Stmt.shift σ.offset)) p q

theorem InBlock.mono {m m' : Nat} {p q : Parser (List Stmt)} (h : InBlock E m p q)
    (hm : m' ≤ m) : InBlock E m' p q := fun k =>
  (h k).pre fun _ _ hw => ⟨hw.1, Nat.lt_of_lt_of_le hw.2 hm⟩

variable {m : Nat} {body body' : Parser (List Stmt)}

theorem block (v : Version) (hbody : InBlock E m body body') :
    Sim E (Within m (Live σ k)) (fun _ => Past σ m k) (List.map (Stmt.shift σ.offset))
      (Parser.block v body) (Parser.block v body') := by
  refine Sim.pre (Sim.within (Sim.begun (I := Within m (Live σ k))
    (J := fun _ => Meets σ .anywhere k) ?_)) fun _ _ h => ⟨⟨h, h.1.2⟩, h.2⟩
  unfold Parser.block
  refine (kind fun _ _ h => ahead_of_live h.1).bind fun next => ?_
  refine .ite (fun _ => ?_) fun _ => ?_
  · refine ((skipNewlines).within.pre fun _ _ h => ⟨h.1.1.1.anywhere, h.1.2⟩).bind fun _ => ?_
    refine of_ahead ?_ (fun _ _ h => h.1.1) fun t hend => ?_
    · refine (peek fun _ _ h => h.2).bind fun token => ?_
      refine .ite (fun hindent => ?_) fun _ => ?_
      · refine (move Onward.advance (R := Within m (Meets σ .anywhere (k + 1)))
          fun s t h => ⟨?_, ?_⟩).bind fun _ => hbody k
        · exact h.1.2.advance_indent (by rw [Cursor.kind_eq, h.2]; exact eq_of_beq hindent)
        · exact Nat.lt_of_le_of_lt (Cursor.remaining_advance_le _) h.1.1.2
      · refine (report rfl fun _ _ h => h.1.2).bind fun _ => ?_
        exact .pure rfl fun _ _ h => h.of_lost .anywhere k
    · -- At the end of the input a header has no body.
      show ((if t.cursor.kind == .indent then _ else _ : Parser (List Stmt)) t).2.errors ≠ []
      rw [hend.kind]
      exact List.append_ne_nil_of_right_ne_nil _ (List.cons_ne_nil _ _)
  · exact (smallStatements v m).weaken (fun _ _ h => ⟨ahead_of_live h.1.1, .inl h.1.2⟩)
      fun _ _ _ h => h.1

/-! ### Definitions -/

theorem expressionAfter (v : Version) (mark : TokenKind) (hmark : mark.isLayout = false) :
    InLine E k (Option.map (Expr.shift σ.offset)) (Parser.expressionAfter v mark)
      (Parser.expressionAfter v mark) := by
  unfold Parser.expressionAfter
  refine cond (eats _ hmark fun _ _ => ahead_of_live) ?_ ?_
  · exact (expression v).map (fun _ => rfl) fun _ _ _ h => h
  · exact .pure rfl fun _ _ h => h.1

theorem parameterHint (v : Version) :
    InLine E k (Option.map (Expr.shift σ.offset)) (Parser.parameterHint v)
      (Parser.parameterHint v) := by
  unfold Parser.parameterHint
  refine (eat _ rfl fun _ _ => ahead_of_live).bind fun colon => ?_
  cases colon with
  | some colon =>
    refine (requireFeature v _ colon.span).bind fun _ => ?_
    exact (expression v).map (fun _ => rfl) fun _ _ _ h => h
  | none => exact .pure rfl fun _ _ h => h.1

theorem parameter (v : Version) (kind : ParameterKind) :
    InLine E k (Option.map (Parameter.shift σ.offset)) (Parser.parameter v kind)
      (Parser.parameter v kind) := by
  unfold Parser.parameter
  refine (expectIdentifier).bind fun name => ?_
  cases name with
  | none => exact .pure rfl fun _ _ h => h
  | some name =>
    refine (parameterHint v).bind fun hint => ?_
    refine (expressionAfter v _ rfl).bind fun default => ?_
    refine .pure ?_ fun _ _ h => h
    cases hint <;> cases default <;> simp [Parameter.shift, Span.shift_merge]

private theorem beforeSlash_shift (n : Nat) (param : Parameter) :
    Parameter.beforeSlash (param.shift n) = (Parameter.beforeSlash param).shift n := by
  unfold Parameter.beforeSlash
  by_cases hkind : param.kind = .positionalOrKeyword
  · rw [if_pos hkind, if_pos (show (param.shift n).kind = _ from hkind)]
    rfl
  · rw [if_neg hkind, if_neg (show ¬ (param.shift n).kind = _ from hkind)]

/-- A token that may come next inside a line, and is not asked for. -/
private theorem passEat (next : TokenKind) (hnext : next.isLayout = false) :
    InLine E k id (Functor.discard (Parser.eat next)) (Functor.discard (Parser.eat next)) :=
  ((eat next hnext fun _ _ => ahead_of_live).post fun found _ _ h => by
    cases found with
    | some token => exact h
    | none => exact h.1).discard

theorem sublistParameter (v : Version) :
    Sim E (fun s t => Live σ k s t ∧ t.cursor.kind.isLayout = false) (fun _ => Live σ k) id
      (Parser.sublistParameter v) (Parser.sublistParameter v) := by
  unfold Parser.sublistParameter
  refine (advance fun s t h => ⟨h.1.1, h.2⟩).bind fun _ => ?_
  refine (skipToClosing).begun.bind fun _ => ?_
  refine (passEat _ rfl).bind fun _ => ?_
  refine cond (eats _ rfl fun _ _ => ahead_of_live) ?_ ?_
  · exact (expression v).discard
  · exact .pure rfl fun _ _ h => h.1

theorem parameters (v : Version) :
    InLine E k (List.map (Parameter.shift σ.offset)) (Parser.parameters v)
      (Parser.parameters v) := by
  unfold Parser.parameters Parser.moreParameters
  refine loop_inLine (Prod.map (List.map (Parameter.shift σ.offset)) id)
    (fun (params, keywordOnly) => ?_) (by intro _; rfl) ([], false)
  refine (peek fun _ _ => ahead_of_live).bind fun token => ?_
  have hread : token.kind.isLayout = false →
      Sim E (fun s t => Live σ k s t ∧ t.cursor.peek = token) (fun _ => Live σ k) id
        Parser.advance Parser.advance := fun hplain =>
    advance_peeked hplain fun _ _ => ahead_of_live
  -- One more parameter; nothing is added where its name is missing.
  have hmore : ∀ (kind : ParameterKind) (keywordOnly : Bool),
      InLine E k
        (mapStep (Prod.map (List.map (Parameter.shift σ.offset)) id)
          (List.map (Parameter.shift σ.offset)))
        (do
          let param ← Parser.parameter v kind
          Pure.pure (.again
            (params.map (Parameter.shift σ.offset) ++ param.toList, keywordOnly)))
        (do
          let param ← Parser.parameter v kind
          Pure.pure (.again (params ++ param.toList, keywordOnly))) := by
    intro kind keywordOnly
    refine (parameter v kind).bind fun param => ?_
    refine .pure ?_ fun _ _ h => h
    cases param <;> simp [mapStep]
  simp only [id_eq, Token.shift_kind]
  split
  · rename_i hk
    refine (hread (by rw [hk]; rfl)).bind fun _ => ?_
    exact .pure rfl fun _ _ h => h
  · rename_i hk
    refine (hread (by rw [hk]; rfl)).bind fun _ => ?_
    exact .pure rfl fun _ _ h => h
  · rename_i hk
    refine (hread (by rw [hk]; rfl)).bind fun _ => ?_
    refine (requireFeature v _ token.span).bind fun _ => ?_
    refine .pure ?_ fun _ _ h => h
    simp [mapStep, Function.comp_def, beforeSlash_shift]
  · rename_i hk
    refine (hread (by rw [hk]; rfl)).bind fun _ => ?_
    refine (peek fun _ _ => ahead_of_live).bind fun word => ?_
    rw [identifier?_shift, Option.isSome_map]
    refine .ite (fun _ => (hmore _ _).pre fun _ _ h => h.1) fun _ => ?_
    exact .pure rfl fun _ _ h => h.1
  · rename_i hk
    exact (hread (by rw [hk]; rfl)).bind fun _ => hmore _ _
  · rename_i hk
    refine ((sublistParameter v).pre fun s t h => ⟨h.1, ?_⟩).bind fun _ => ?_
    · rw [Cursor.kind_eq, h.2, hk]
      rfl
    · exact .pure rfl fun _ _ h => h
  · rw [identifier?_shift, Option.isSome_map]
    refine .ite (fun _ => (hmore _ _).pre fun _ _ h => h.1) fun _ => ?_
    exact expected_closing rfl fun _ _ h => h.1

theorem parameterList (v : Version) :
    InLine E k (List.map (Parameter.shift σ.offset)) (Parser.parameterList v)
      (Parser.parameterList v) := by
  unfold Parser.parameterList
  refine (peek fun _ _ => ahead_of_live).bind fun token => ?_
  refine cond (eats _ rfl fun _ _ h => ahead_of_live h.1) (parameters v) ?_
  refine ((expected rfl fun _ _ h => h).begun.pre fun _ _ h => h.1.1).bind fun _ => ?_
  exact .pure rfl fun _ _ => live_of_lost

theorem classArguments (v : Version) :
    InLine E k (List.map (Argument.shift σ.offset)) (Parser.classArguments v)
      (Parser.classArguments v) := by
  unfold Parser.classArguments
  refine cond (eats _ rfl fun _ _ => ahead_of_live) (callArguments v (parseExprs v)) ?_
  exact .pure rfl fun _ _ h => h.1

/-- After a fault nothing is left to follow in the part in front, and the part at the back is
    at the same place wherever it is. -/
theorem abandonLine (start : Span) :
    Sim E (Begun (Meets σ .lost k)) (fun _ => Begun (Meets σ .lost k)) (Stmt.shift σ.offset)
      (Parser.abandonLine (start.shift σ.offset)) (Parser.abandonLine start) := by
  unfold Parser.abandonLine
  refine (skipLine_lost).begun.bind fun _ => ?_
  refine (spanFrom rfl fun _ _ h => h).bind fun span => ?_
  exact .pure rfl fun _ _ h => h

/-- Where a statement may begin, with at most `m` tokens left. -/
def Opening (σ : Seam) (m k : Nat) : Rel := fun s t => Ready σ k s t ∧ t.remaining ≤ m

theorem Ready.kind_ne_eof {s t : ParserState} (h : Ready σ k s t) : t.cursor.kind ≠ .eof :=
  TokenKind.ne_eof_of_plain h.2

/-- The word that begins a statement. -/
theorem firstWord :
    Sim E (Opening σ m k) (fun _ => Within m (Live σ k)) (Token.shift σ.offset) Parser.next
      Parser.next :=
  (next fun _ _ h => h.1).reads (fun _ => rfl) fun _ _ h => ⟨h.1.kind_ne_eof, h.2⟩

theorem past_of_lost {s t : ParserState} (h : Within m (Begun (Meets σ .lost k)) s t) :
    Past σ m k s t :=
  ⟨⟨h.1.1.of_lost .anywhere k, h.1.2⟩, h.2⟩

private theorem getD_shift (n : Nat) (start : Option Span) (word : Token) :
    (start.map (Span.shift n)).getD (word.shift n).span
      = (start.getD word.span).shift n := by
  cases start <;> rfl

theorem classStatement (v : Version) (hbody : InBlock E m body body') (decorators : List Expr)
    (start : Option Span) :
    Sim E (Opening σ m k) (fun _ => Past σ m k) (Stmt.shift σ.offset)
      (Parser.classStatement v body (decorators.map (Expr.shift σ.offset))
        (start.map (Span.shift σ.offset)))
      (Parser.classStatement v body' decorators start) := by
  unfold Parser.classStatement
  refine (firstWord).bind fun word => ?_
  simp only [getD_shift]
  generalize start.getD word.span = start
  refine (expectIdentifier_found).within.bind fun name => ?_
  cases name with
  | none => exact (abandonLine start).within.post fun _ _ _ => past_of_lost
  | some name =>
    refine (classArguments v).within.bind fun arguments => ?_
    refine (expectColon).within.bind fun _ => ?_
    refine (block v hbody).bind fun stmts => ?_
    refine (spanFrom rfl fun _ _ h => h.1).bind fun span => ?_
    refine .pure ?_ fun _ _ h => h
    rw [Stmt.shift, shiftBody_eq_map]
    rfl

theorem functionStatement (v : Version) (hbody : InBlock E m body body')
    (decorators : List Expr) (start : Option Span) (isAsync : Bool) :
    Sim E (Opening σ m k) (fun _ => Past σ m k) (Stmt.shift σ.offset)
      (Parser.functionStatement v body (decorators.map (Expr.shift σ.offset))
        (start.map (Span.shift σ.offset)) isAsync)
      (Parser.functionStatement v body' decorators start isAsync) := by
  unfold Parser.functionStatement
  refine (firstWord).bind fun word => ?_
  simp only [getD_shift]
  generalize start.getD word.span = start
  refine (expectIdentifier_found).within.bind fun name => ?_
  cases name with
  | none => exact (abandonLine start).within.post fun _ _ _ => past_of_lost
  | some name =>
    refine (parameterList v).within.bind fun params => ?_
    refine (expressionAfter v _ rfl).within.bind fun returns => ?_
    refine (expectColon).within.bind fun _ => ?_
    refine (block v hbody).bind fun stmts => ?_
    refine (spanFrom rfl fun _ _ h => h.1).bind fun span => ?_
    refine .pure ?_ fun _ _ h => h
    rw [Stmt.shift, shiftBody_eq_map]
    rfl

/-! ### Control flow -/

theorem clause (v : Version) (hbody : InBlock E m body body') (kind : ClauseKind) :
    Sim E (Opening σ m k) (fun _ => Past σ m k) (Clause.shift σ.offset)
      (Parser.clause v body kind) (Parser.clause v body' kind) := by
  unfold Parser.clause
  refine (firstWord).bind fun word => ?_
  refine (skipHeader).within.bind fun _ => ?_
  refine (block v hbody).bind fun stmts => ?_
  refine (spanFrom rfl fun _ _ h => h.1).bind fun span => ?_
  refine .pure ?_ fun _ _ h => h
  rw [Clause.shift, shiftBody_eq_map]

/-- Only the words that go on with a statement begin a further clause. -/
private theorem continues_of_furtherClause? {compound : CompoundKind} {kind : TokenKind}
    {further : ClauseKind} (h : CompoundKind.furtherClause? compound kind = some further) :
    kind.continuesStatement = true ∧ kind.isLayout = false := by
  unfold CompoundKind.furtherClause? at h
  split at h
  all_goals first
    | exact ⟨rfl, rfl⟩
    | cases h

/-- What follows the part in front is no further clause. -/
private theorem furtherClause?_eq (compound : CompoundKind) {s t : ParserState}
    (h : Meets σ .anywhere k s t) :
    CompoundKind.furtherClause? compound s.cursor.kind
      = CompoundKind.furtherClause? compound t.cursor.kind := by
  have hnone : ∀ kind : TokenKind, kind.continuesStatement = false →
      CompoundKind.furtherClause? compound kind = none := by
    intro kind hkind
    cases hfurther : CompoundKind.furtherClause? compound kind with
    | none => rfl
    | some further =>
      rw [(continues_of_furtherClause? hfurther).1] at hkind
      cases hkind
  rcases h.kind_or_new with hk | ⟨heof, -, hnew⟩
  · rw [hk]
  · rw [hnone _ hnew, heof, hnone _ rfl]

theorem furtherClauses (v : Version) (hbody : InBlock E m body body')
    (compound : CompoundKind) (first : Clause) :
    Sim E (Past σ m k) (fun _ => Past σ m k) (List.map (Clause.shift σ.offset))
      (Parser.furtherClauses v body compound (first.shift σ.offset))
      (Parser.furtherClauses v body' compound first) := by
  unfold Parser.furtherClauses Parser.moreClauses
  refine loop (φ := List.map (Clause.shift σ.offset)) (I := fun _ => Past σ m k)
    (fun clauses => ?_) (fun _ _ _ h => ⟨k, h.1.1⟩) (by intro _; rfl)
    (by intro _ _ _ h; exact h) [first]
  refine (inspect fun _ _ h => furtherClause?_eq compound h.1.1).bind fun further => ?_
  cases further with
  | none => exact .pure rfl fun _ _ h => h.1
  | some further =>
    have hopening : ∀ s t, Past σ m k s t
        ∧ CompoundKind.furtherClause? compound t.cursor.kind = some further →
          Opening σ m k s t := by
      intro s t h
      have hplain := (continues_of_furtherClause? h.2).2
      have hahead := h.1.1.1.ahead_of_ne (TokenKind.ne_eof_of_plain hplain)
      exact ⟨⟨hahead, hplain⟩, Nat.le_of_lt h.1.2⟩
    refine ((clause v hbody further).pre hopening).bind fun next => ?_
    refine .pure ?_ fun _ _ h => h
    rw [map_concat, mapStep]

theorem compoundStatement (v : Version) (hbody : InBlock E m body body')
    (compound : CompoundKind) (isAsync : Bool) (start : Span) :
    Sim E (Opening σ m k) (fun _ => Past σ m k) (Stmt.shift σ.offset)
      (Parser.compoundStatement v body compound isAsync (start.shift σ.offset))
      (Parser.compoundStatement v body' compound isAsync start) := by
  unfold Parser.compoundStatement
  refine (clause v hbody _).bind fun first => ?_
  refine (furtherClauses v hbody compound first).bind fun clauses => ?_
  refine (spanFrom rfl fun _ _ h => h.1).bind fun span => ?_
  refine .pure ?_ fun _ _ h => h
  rw [Stmt.shift, shiftClauses_eq_map]

/-- A token that has been looked at begins a statement if it is none of the layout. -/
theorem opening_of_peek {token : Token} {s t : ParserState} (hplain : token.kind.isLayout = false)
    (h : Meets σ .ahead k s t) (hpeek : t.cursor.peek = token) (hm : t.remaining ≤ m) :
    Opening σ m k s t :=
  ⟨⟨h, by rw [Cursor.kind_eq, hpeek]; exact hplain⟩, hm⟩

/-- What is left of the tokens while the lines of a block are read. -/
def Below (m m' : Nat) (t : ParserState) : Prop :=
  t.begun = true ∧ t.remaining < m ∧ t.remaining ≤ m'

theorem Below.onward {m m' : Nat} {t t' : ParserState} (h : Onward t t') (ht : Below m m' t) :
    Below m m' t' :=
  ⟨h.begun ht.1, Nat.lt_of_le_of_lt h.remaining_le ht.2.1, Nat.le_trans h.remaining_le ht.2.2⟩

/-- The cases of a match statement end with the dedent of their block. -/
theorem matchCases (v : Version) (hbody : InBlock E m body body') :
    Sim E (Past σ m (k + 1)) (fun _ => Past σ m k) (List.map (Clause.shift σ.offset))
      (Parser.matchCases v body) (Parser.matchCases v body') := by
  unfold Parser.matchCases
  refine loop_within (φ := List.map (Clause.shift σ.offset)) (I := fun _ => Past σ m (k + 1))
    (fun m' clauses => ?_) (fun _ _ _ h => ⟨k + 1, h.1.1⟩) (by intro _; rfl) []
  refine (((skipNewlines).keep (P := Below m m') Below.onward).pre
    fun _ _ h => ⟨h.1.1.1, h.1.1.2, h.1.2, h.2⟩).bind fun _ => ?_
  refine (peek fun _ _ h => h.1.1.ahead_of_pos).bind fun token => ?_
  rw [Token.shift_kind]
  split
  · rename_i hk
    refine .pure rfl fun s t h => ⟨⟨(h.1.1.1.of_eof ?_ k).of_lost .anywhere k, h.1.2.1⟩, h.1.2.2.1⟩
    rw [Cursor.kind_eq, h.2]
    exact hk
  · rename_i hk
    refine (((move Onward.advance (R := Meets σ .anywhere k) fun s t h => ?_).keep
      (P := Below m m') Below.onward).pre fun _ _ h => ⟨h, h.1.2⟩).bind fun _ => ?_
    · exact h.1.1.1.advance_dedent (by rw [Cursor.kind_eq, h.2]; exact hk)
    · exact .pure rfl fun _ _ h => ⟨⟨h.1, h.2.1⟩, h.2.2.1⟩
  · rename_i heof hdedent
    rw [Token.isWord_shift]
    refine .ite (fun hcase => ?_) fun _ => ?_
    · -- What is left is bounded twice: by the body, and by the step.
      refine ((clause v (hbody.mono (Nat.min_le_left m m')) .case).pre fun s t h =>
        opening_of_peek (Token.isLayout_of_isWord hcase) h.1.1.1.ahead_of_pos h.2
          (Nat.le_min.2 ⟨Nat.le_of_lt h.1.2.2.1, h.1.2.2.2⟩)).bind fun next => ?_
      refine .pure ?_ fun s t h => ?_
      · rw [map_concat, mapStep]
      · obtain ⟨hm, hm'⟩ := Nat.lt_min.1 h.2
        exact ⟨⟨h.1, hm⟩, hm'⟩
    · refine (((report_at (P := fun c => c.kind ≠ .eof) rfl (fun _ _ h => h.1.1.1)
        fun s t h => ?_).keep (P := Below m m') Below.onward).pre fun _ _ h => ⟨h, h.1.2⟩).bind
        fun _ => ?_
      · rw [Cursor.kind_eq, h.2]
        exact heof
      · refine (move Onward.skipLine (R := Within m' (Past σ m (k + 1))) fun s t h => ?_).bind
          fun _ => .pure rfl fun _ _ h => h
        obtain ⟨⟨hlost, hne⟩, hbelow⟩ := h
        obtain ⟨hbegun, hlt, -⟩ := Below.onward (Onward.skipLine t) hbelow
        refine ⟨⟨⟨hlost.skipLine_lost.of_lost .anywhere (k + 1), hbegun⟩, hlt⟩, ?_⟩
        exact Nat.lt_of_lt_of_le (Cursor.remaining_skipLine_lt hne) hbelow.2.2

theorem matchBlock (v : Version) (hbody : InBlock E m body body') :
    Sim E (Within m (Live σ k)) (fun _ => Past σ m k) (List.map (Clause.shift σ.offset))
      (Parser.matchBlock v body) (Parser.matchBlock v body') := by
  unfold Parser.matchBlock
  refine ((skipNewlines).begun.within.pre fun _ _ h => ⟨⟨h.1.1.anywhere, h.1.2⟩, h.2⟩).bind
    fun _ => ?_
  -- The newlines may have used up the part in front. Then its run reports a fault.
  refine of_ahead ?_ (fun _ _ h => h.1.1.1) fun t hend => ?_
  · refine (peek fun _ _ h => h.2).bind fun token => ?_
    refine .ite (fun hindent => ?_) fun _ => ?_
    · have hadvance : Sim E
          (fun s t => Meets σ .ahead k s t ∧ t.cursor.peek = token)
          (fun _ => Meets σ .anywhere (k + 1)) id Parser.advance Parser.advance :=
        move Onward.advance fun s t h => h.1.advance_indent
          (by rw [Cursor.kind_eq, h.2]; exact eq_of_beq hindent)
      refine (hadvance.begun.within.pre fun _ _ h =>
        ⟨⟨⟨h.1.2, h.2⟩, h.1.1.1.2⟩, h.1.1.2⟩).bind fun _ => matchCases v hbody
    · refine ((report rfl fun _ _ h => h).begun.within.pre fun _ _ h =>
        ⟨⟨h.1.2, h.1.1.1.2⟩, h.1.1.2⟩).bind fun _ => ?_
      exact .pure rfl fun _ _ => past_of_lost
  · -- At the end of the input there are no cases.
    show ((if t.cursor.kind == .indent then _ else _ : Parser (List Clause)) t).2.errors ≠ []
    rw [hend.kind]
    exact List.append_ne_nil_of_right_ne_nil _ (List.cons_ne_nil _ _)

theorem matchStatement (v : Version) (hbody : InBlock E m body body') :
    Sim E (Opening σ m k) (fun _ => Past σ m k) (Stmt.shift σ.offset)
      (Parser.matchStatement v body) (Parser.matchStatement v body') := by
  unfold Parser.matchStatement
  refine (firstWord).bind fun word => ?_
  refine (skipHeader).within.bind fun _ => ?_
  refine (matchBlock v hbody).bind fun clauses => ?_
  refine (spanFrom rfl fun _ _ h => h.1).bind fun span => ?_
  refine .pure ?_ fun _ _ h => h
  rw [Stmt.shift, shiftClauses_eq_map]

theorem asyncStatement (v : Version) (hbody : InBlock E m body body') (decorators : List Expr)
    (start : Option Span) :
    Sim E (Opening σ m k) (fun _ => Past σ m k) (Stmt.shift σ.offset)
      (Parser.asyncStatement v body (decorators.map (Expr.shift σ.offset))
        (start.map (Span.shift σ.offset)))
      (Parser.asyncStatement v body' decorators start) := by
  unfold Parser.asyncStatement
  refine (firstWord).bind fun word => ?_
  simp only [getD_shift]
  generalize start.getD word.span = start
  refine (peek fun _ _ h => ahead_of_live h.1).bind fun token => ?_
  have hopening : token.kind.isLayout = false → ∀ s t,
      Within m (Live σ k) s t ∧ t.cursor.peek = token → Opening σ m k s t :=
    fun hplain s t h => opening_of_peek hplain (ahead_of_live h.1.1) h.2 (Nat.le_of_lt h.1.2)
  rw [Token.shift_kind]
  split
  · rename_i hk
    exact (functionStatement v hbody decorators (some start) true).pre
      (hopening (by rw [hk]; rfl))
  · rename_i hk
    exact (compoundStatement v hbody .for true start).pre (hopening (by rw [hk]; rfl))
  · rename_i hk
    exact (compoundStatement v hbody .with true start).pre (hopening (by rw [hk]; rfl))
  · refine ((expected rfl fun _ _ h => h).begun.within.pre fun _ _ h => h.1).bind fun _ => ?_
    exact (abandonLine start).within.post fun _ _ _ => past_of_lost

theorem endDecorator :
    Sim E (Live σ k) (fun _ => Begun (Meets σ .anywhere k)) id Parser.endDecorator
      Parser.endDecorator := by
  unfold Parser.endDecorator
  refine (peek fun _ _ => ahead_of_live).bind fun token => ?_
  rw [Token.shift_kind]
  split
  · rename_i hk
    have hadvance : Sim E (fun s t => Meets σ .lined k s t ∧ t.cursor.peek = token)
        (fun _ => Meets σ .anywhere k) id Parser.advance Parser.advance :=
      move Onward.advance fun s t h => h.1.advance_newline
        (by rw [Cursor.kind_eq, h.2]; exact hk)
    exact hadvance.begun.pre fun _ _ h => ⟨⟨h.1.1, h.2⟩, h.1.2⟩
  · exact .pure rfl fun _ _ h => ⟨h.1.1.anywhere, h.1.2⟩
  · refine ((expected rfl fun _ _ h => h).begun.pre fun _ _ h => h.1).bind fun _ => ?_
    exact (skipLine_lost).begun.post fun _ _ _ h => ⟨h.1.of_lost .anywhere k, h.2⟩

/-- After a decorator a token is left, or else the part in front is used up. -/
theorem decorator (v : Version) :
    Sim (orEnd E) (Live σ k) (fun _ => Begun (Meets σ .ahead k)) (Expr.shift σ.offset)
      (Parser.decorator v) (Parser.decorator v) := by
  unfold Parser.decorator
  refine (expression v).bind fun value => ?_
  refine (endDecorator).bind fun _ => ?_
  refine (ahead_of_orEnd ((skipNewlines).begun.post fun _ _ _ h => ⟨h.1.1, h.2⟩)).bind fun _ => ?_
  exact .pure rfl fun _ _ h => h

/-- Some decorators have been read, or the first one comes next. -/
def AmongDecorators (σ : Seam) (m k : Nat) : Rel := fun s t =>
  Meets σ .ahead k s t ∧ (t.begun = true ∧ t.remaining < m
    ∨ t.cursor.kind = .operator .at ∧ t.remaining ≤ m)

/-- Decorators end before the definition that they belong to. -/
theorem decoratorList (v : Version) :
    Sim (orEnd E) (fun s t => Opening σ m k s t ∧ t.cursor.kind = .operator .at)
      (fun _ => Within m (Begun (Meets σ .ahead k))) (List.map (Expr.shift σ.offset))
      (Parser.decoratorList v) (Parser.decoratorList v) := by
  unfold Parser.decoratorList
  refine Sim.pre (loop_of_left (φ := List.map (Expr.shift σ.offset))
    (I := fun _ => AmongDecorators σ m k) (K := fun _ => Within m (Begun (Meets σ .ahead k)))
    (fun m' decorators => ?_) (fun _ _ _ h => ⟨k, h.1.anywhere⟩) (by intro _; rfl) [])
    fun _ _ h => ⟨h.1.1.1, .inr ⟨h.2, h.1.2⟩⟩
  refine cond (eats_within (m := m) _ rfl (fun _ _ h => h.1.1) fun s t h _ =>
    h.1.2.elim (fun hbegun => Nat.le_of_lt hbegun.2) And.right) ?_ ?_
  · refine (decorator v).within.bind fun next => ?_
    refine .pure ?_ fun _ _ h => ⟨⟨h.1.1, .inl ⟨h.1.2, h.2⟩⟩, .inr h⟩
    rw [map_concat, mapStep]
  · refine .pure rfl fun s t h => ?_
    obtain ⟨⟨⟨hahead, hread⟩, -⟩, hk⟩ := h
    rcases hread with ⟨hbegun, hlt⟩ | ⟨hat, -⟩
    · exact ⟨⟨hahead, hbegun⟩, hlt⟩
    · exact absurd hat hk

theorem decoratedStatement (v : Version) (hbody : InBlock E m body body') :
    Sim E (fun s t => Opening σ m k s t ∧ t.cursor.kind = .operator .at) (fun _ => Past σ m k)
      (Stmt.shift σ.offset) (Parser.decoratedStatement v body)
      (Parser.decoratedStatement v body') := by
  unfold Parser.decoratedStatement
  refine (peek fun _ _ h => h.1.1.1).bind fun start => ?_
  refine bind_of_orEnd ((decoratorList v).pre fun _ _ h => h.1)
    (fun decorators => ?_) fun decorators t hend => ?_
  · refine (peek fun _ _ h => h.1.1).bind fun token => ?_
    have hopening : token.kind.isLayout = false → ∀ s t,
        Within m (Begun (Meets σ .ahead k)) s t ∧ t.cursor.peek = token → Opening σ m k s t :=
      fun hplain s t h => opening_of_peek hplain h.1.1.1 h.2 (Nat.le_of_lt h.1.2)
    rw [Token.shift_kind]
    split
    · rename_i hk
      exact (functionStatement v hbody decorators (some start.span) false).pre
        (hopening (by rw [hk]; rfl))
    · rename_i hk
      exact (classStatement v hbody decorators (some start.span)).pre
        (hopening (by rw [hk]; rfl))
    · refine cond (ask fun s t h => h.1.1.1.atAsync v) ?_ ?_
      · exact (asyncStatement v hbody decorators (some start.span)).pre fun s t h =>
          ⟨⟨h.1.1.1.1, Cursor.isLayout_of_atAsync h.2⟩, Nat.le_of_lt h.1.1.2⟩
      · refine ((expected rfl fun _ _ h => h).begun.within.pre fun _ _ h => h.1.1).bind
          fun _ => ?_
        refine (spanFrom rfl fun _ _ h => h.1).bind fun span => ?_
        exact .pure rfl fun _ _ => past_of_lost
  · -- At the end of the input a definition is missing.
    have hk : t.cursor.peek.kind = .eof := hend.kind
    have hasync : t.cursor.atAsync v 0 = false :=
      Cursor.atAsync_of_layout v (by rw [hend.kind]; exact Bool.noConfusion)
    simp only [peek_bind, hk, look_bind, hasync]
    exact List.append_ne_nil_of_right_ne_nil _ (List.cons_ne_nil _ _)

/-! ### Statements -/

/-- One statement, or the small statements of one line. -/
theorem statement (v : Version) (hbody : InBlock E m body body') :
    Sim E (Opening σ m k) (fun _ => Within m (Meets σ .anywhere k))
      (List.map (Stmt.shift σ.offset)) (Parser.statement v body) (Parser.statement v body') := by
  unfold Parser.statement
  refine (peek fun _ _ h => h.1.1).bind fun token => ?_
  -- A statement with a body stands alone.
  have hsingle : ∀ {p q : Parser Stmt} {I : Rel},
      Sim E I (fun _ => Past σ m k) (Stmt.shift σ.offset) p q →
      Sim E I (fun _ => Within m (Meets σ .anywhere k)) (List.map (Stmt.shift σ.offset))
        (List.singleton <$> p) (List.singleton <$> q) := fun h =>
    h.map (fun _ => rfl) fun _ _ _ h => ⟨h.1.1, h.2⟩
  have hcompound : ∀ compound,
      Sim E (fun s t => Opening σ m k s t ∧ t.cursor.peek = token)
        (fun _ => Within m (Meets σ .anywhere k)) (List.map (Stmt.shift σ.offset))
        (List.singleton <$>
          Parser.compoundStatement v body compound false (token.shift σ.offset).span)
        (List.singleton <$> Parser.compoundStatement v body' compound false token.span) :=
    fun compound =>
      hsingle ((compoundStatement v hbody compound false token.span).pre fun _ _ h => h.1)
  rw [Token.shift_kind]
  split
  -- A word that begins no statement is reported and read, so that the parser goes on.
  · refine (report_at (P := fun c => c.kind ≠ .eof ∧ c.remaining ≤ m) rfl
      (fun _ _ h => h.1.1.1) fun _ _ h => ⟨h.1.1.kind_ne_eof, h.1.2⟩).bind fun _ => ?_
    refine (((advance_lost).pre fun _ _ h => h.1).reads (fun _ => rfl) fun _ _ h => h.2).bind
      fun _ => ?_
    exact .pure rfl fun _ _ h => ⟨h.1.of_lost .anywhere k, h.2⟩
  · rename_i hk
    refine hsingle ((decoratedStatement v hbody).pre fun s t h => ⟨h.1, ?_⟩)
    rw [Cursor.kind_eq, h.2]
    exact hk
  · exact hsingle ((functionStatement v hbody [] none false).pre fun _ _ h => h.1)
  · exact hsingle ((classStatement v hbody [] none).pre fun _ _ h => h.1)
  · exact hcompound _
  · exact hcompound _
  · exact hcompound _
  · exact hcompound _
  · exact hcompound _
  · refine cond (ask fun _ _ h => h.1.1.1.atAsync v) ?_ ?_
    · exact hsingle ((asyncStatement v hbody [] none).pre fun _ _ h => h.1.1)
    · refine cond (ask fun _ _ h => h.1.1.1.1.atMatch v) ?_ ?_
      · exact hsingle ((matchStatement v hbody).pre fun _ _ h => h.1.1.1)
      · exact (smallStatements v m).pre fun s t h =>
          ⟨h.1.1.1.1.1, .inr ⟨h.1.1.1.2, h.1.1.1.1.2⟩⟩

theorem strayBlock (hbody : InBlock E m body body') {indent : Token}
    (hindent : indent.kind = .indent) :
    Sim E (fun s t => (Meets σ .ahead k s t ∧ t.remaining ≤ m) ∧ t.cursor.peek = indent)
      (fun _ => Within m (Meets σ .anywhere k)) (List.map (Stmt.shift σ.offset))
      (Parser.strayBlock body (indent.shift σ.offset)) (Parser.strayBlock body' indent) := by
  unfold Parser.strayBlock
  refine (report_at (P := fun c => c.kind ≠ .eof ∧ c.remaining ≤ m) rfl (fun _ _ h => h.1.1)
    fun s t h => ⟨?_, h.1.2⟩).bind fun _ => ?_
  · rw [Cursor.kind_eq, h.2, hindent]
    exact TokenKind.noConfusion
  · refine (((advance_lost).pre fun _ _ h => h.1).reads (fun _ => rfl) fun _ _ h => h.2).bind
      fun _ => ?_
    exact (hbody k).within.pre fun _ _ h => ⟨⟨h.1.of_lost .anywhere (k + 1), h.2⟩, h.2⟩

/-- A body is left by the dedent that ends it. -/
theorem bodyWith (v : Version) (hbody : InBlock E m body body') :
    Sim E (fun s t => Meets σ .anywhere (k + 1) s t ∧ t.remaining ≤ m)
      (fun _ => Meets σ .anywhere k) (List.map (Stmt.shift σ.offset)) (Parser.bodyWith v body)
      (Parser.bodyWith v body') := by
  unfold Parser.bodyWith Parser.moreStatements
  refine loop_within (φ := List.map (Stmt.shift σ.offset))
    (I := fun _ s t => Meets σ .anywhere (k + 1) s t ∧ t.remaining ≤ m) (fun m' stmts => ?_)
    (fun _ _ _ h => ⟨k + 1, h.1⟩) (by intro _; rfl) []
  -- What is left is bounded twice: by the body, and by the step.
  have hinner : InBlock E (min m m') body body' := hbody.mono (Nat.min_le_left m m')
  have hread : ∀ {s t}, Within (min m m') (Meets σ .anywhere (k + 1)) s t →
      Within m' (fun s t => Meets σ .anywhere (k + 1) s t ∧ t.remaining ≤ m) s t := by
    intro s t h
    obtain ⟨hm, hm'⟩ := Nat.lt_min.1 h.2
    exact ⟨⟨h.1, Nat.le_of_lt hm⟩, hm'⟩
  refine (((skipNewlines).keep (P := fun t => t.remaining ≤ min m m') fun h hle =>
    Nat.le_trans h.remaining_le hle).pre fun _ _ h => ⟨h.1.1, Nat.le_min.2 ⟨h.1.2, h.2⟩⟩).bind
    fun _ => ?_
  refine (peek fun _ _ h => h.1.1.ahead_of_pos).bind fun token => ?_
  rw [Token.shift_kind]
  split
  · rename_i hk
    refine .pure rfl fun s t h => (h.1.1.1.of_eof ?_ k).of_lost .anywhere k
    rw [Cursor.kind_eq, h.2]
    exact hk
  · rename_i hk
    refine (move Onward.advance (R := Meets σ .anywhere k) fun s t h => ?_).bind fun _ => ?_
    · exact h.1.1.1.advance_dedent (by rw [Cursor.kind_eq, h.2]; exact hk)
    · exact .pure rfl fun _ _ h => h
  · rename_i hk
    refine ((strayBlock hinner hk).pre fun _ _ h =>
      ⟨⟨h.1.1.1.ahead_of_pos, h.1.2⟩, h.2⟩).bind fun inner => ?_
    refine .pure ?_ fun _ _ h => hread h
    rw [mapStep, List.map_append]
  · rename_i heof hdedent hindent
    refine ((statement (k := k + 1) v hinner).pre fun s t h => ?_).bind fun more => ?_
    · refine opening_of_peek (TokenKind.isLayout_of_ne heof hdedent hindent ?_)
        h.1.1.1.ahead_of_pos h.2 h.1.2
      rw [← h.2]
      exact h.1.1.2
    · refine .pure ?_ fun _ _ h => hread h
      rw [mapStep, List.map_append]

/-- The parser of the bodies in a body that begins at `t`. -/
private def innerBody (v : Version) (t : ParserState) : Parser (List Stmt) :=
  Parser.nested t.remaining [] fun u _ => Parser.indentedBody v u

private theorem indentedBody_eq (v : Version) (t : ParserState) :
    Parser.indentedBody v t = Parser.bodyWith v (innerBody v t) t := by
  rw [Parser.indentedBody]
  rfl

/-- Tokens are read and errors added by every body. -/
theorem onward_indentedBody (v : Version) (t : ParserState) :
    Onward t (Parser.indentedBody v t).2 := by
  suffices ∀ m, ∀ t, t.remaining = m → Onward t (Parser.indentedBody v t).2 by
    exact this _ t rfl
  intro m
  induction m using Nat.strongRecOn with
  | ind m ih =>
    intro t hm
    -- Only that tokens are read is wanted here, so what both runs answer may be left open.
    have hinner : InBlock (always (.back [] 0)) m (innerBody v t) (innerBody v t) := by
      intro k
      refine ⟨fun u => ?_, fun _ _ _ => .inl trivial⟩
      rw [innerBody, Parser.nested]
      split
      · rename_i hlt
        exact ih _ (hm ▸ hlt) u rfl
      · exact Onward.refl u
    rw [indentedBody_eq]
    exact (bodyWith (k := 0) v hinner).onward t

/-- Bodies run in step. -/
theorem indentedBody (v : Version) (m : Nat) :
    InBlock E m (Parser.indentedBody v) (Parser.indentedBody v) := by
  refine fun k => ⟨onward_indentedBody v, fun s t hI => ?_⟩
  suffices ∀ m, ∀ k s t, t.remaining = m → Meets σ .anywhere (k + 1) s t →
      E.holds (Parser.indentedBody v t).2
        ∨ ((Parser.indentedBody v s).1
            = (Parser.indentedBody v t).1.map (Stmt.shift σ.offset)
          ∧ Meets σ .anywhere k (Parser.indentedBody v s).2 (Parser.indentedBody v t).2) by
    exact this _ k s t rfl hI.1
  intro m
  induction m using Nat.strongRecOn with
  | ind m ih =>
    intro k s t hm h
    -- Both runs give up at the same point, since either has read as many tokens as the other.
    have hinner : InBlock E m (innerBody v s) (innerBody v t) := by
      intro k'
      refine nested (fun s' t' h' => h.remaining_lt_iff h'.1) rfl
        (fun s' t' h' hlt => absurd (hm ▸ h'.2) hlt) (fun u _ => onward_indentedBody v u)
        fun s' t' _ hlt h' => ?_
      exact ih _ (hm ▸ hlt) k' s' t' rfl h'.1
    rw [indentedBody_eq, indentedBody_eq]
    exact (bodyWith v hinner).run s t ⟨h, Nat.le_of_eq hm⟩

end Sim

end PyAtlas
