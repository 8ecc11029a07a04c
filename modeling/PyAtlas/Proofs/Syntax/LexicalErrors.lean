import PyAtlas.Proofs.Syntax.Compositional
import PyAtlas.Proofs.Syntax.ExprSilence
import PyAtlas.Proofs.Syntax.Nesting

/-!
# Lexical errors are reported

A text with a lexical error in it has errors, unless the parser passes over every lexical error
that it meets. For a production of statements this is `Heeds`: wherever it starts, it reports
something or meets no lexical error but those that are passed over. The loops over headers and
over the operands of small statements report the lexical errors that they meet. Every other loop
that skips tokens is behind a report, those apart that `Cursor.passedOver` describes.

## Key results
- `Quiet.sublistParameter`: a list of parameters among parameters is passed over.
- `Heeds.statement`, `Heeds.indentedBody`: statements and bodies heed the errors in them.
- `SyntaxTree.lexical_error_reported`: the same for a text.
-/

namespace PyAtlas

open PyAtlas.Parser

/-- Wherever the parser starts, it reports something or meets no lexical error but those that are
    passed over. -/
abbrev Heeds {α : Type} (p : Parser α) : Prop := Quiet (fun _ => True) (fun _ _ => True) p

/-- No lexical error comes next. -/
def Legible (s : ParserState) : Prop := ∀ cause, s.cursor.kind ≠ .error cause

theorem Legible.of_kind {s : ParserState} {k : TokenKind} (h : s.cursor.kind = k)
    (hk : ∀ cause, k ≠ .error cause) : Legible s :=
  fun cause => h ▸ hk cause

theorem Legible.of_peek {s : ParserState} {token : Token} {k : TokenKind}
    (h : s.cursor.peek = token) (hk : token.kind = k) (hlegible : ∀ cause, k ≠ .error cause) :
    Legible s :=
  .of_kind (by rw [Cursor.kind_eq, h, hk]) hlegible

namespace Heeds

variable {α β : Type} {p : Parser α} {f : α → Parser β} {I : ParserState → Prop}
  {J : α → ParserState → Prop}

/-! ### Putting productions together -/

theorem of_keepsBrackets (h : ∀ m, KeepsBrackets m p) : Heeds p where
  onward := (h 0 []).onward
  silent s _ hsame := by
    have hinside : Inside (openBrackets s.cursor.before) (s.remaining + 1) s :=
      ⟨rfl, Nat.lt_succ_self _⟩
    exact ⟨((h _ _).silent s hinside hsame).1, trivial⟩

theorem pure {a : α} : Heeds (Pure.pure a) :=
  Quiet.pure fun _ _ => trivial

theorem anywhere (h : Heeds p) : Quiet I (fun _ _ => True) p :=
  h.pre fun _ _ => trivial

theorem loop {γ : Type} {giveUp : γ → β} {step : γ → Parser (LoopStep γ β)}
    (h : ∀ c, Heeds (step c)) (c : γ) : Heeds (Parser.loop giveUp step c) := by
  refine Quiet.loop_keeps (fun c => (h c).post fun r s _ => ?_) c
  cases r with
  | again c => exact trivial
  | finished b => exact trivial

theorem peek_bind {f : Token → Parser β}
    (h : ∀ token, Quiet (fun s => s.cursor.peek = token) (fun _ _ => True) (f token)) :
    Heeds (peek >>= f) :=
  Quiet.peek_bind fun token => (h token).pre fun _ hs => hs.2

/-- Behind a report nothing needs to be shown. -/
theorem expected_bind {expectation : Expectation} {token : Token} {f : Unit → Parser β}
    {L : β → ParserState → Prop} (h : ∀ s, Onward s (f () s).2) :
    Quiet I L (expected expectation token >>= f) :=
  Quiet.expected.bind fun _ => .unreached h

theorem report_bind {fault : SyntaxFault} {span : Span} {f : Unit → Parser β}
    {L : β → ParserState → Prop} (h : ∀ s, Onward s (f () s).2) :
    Quiet I L (report fault span >>= f) :=
  Quiet.report.bind fun _ => .unreached h

/-! ### Reading -/

/-- A token that has been looked at and is no lexical error may be read. -/
theorem advance {token : Token} (h : ∀ cause, token.kind ≠ .error cause) :
    Quiet (fun s => s.cursor.peek = token) (fun _ _ => True) Parser.advance := by
  refine .advance (fun s hs => Cursor.not_atLexicalError_of_kind ?_ h) fun _ _ => trivial
  rw [Cursor.kind_eq, hs]

theorem advance_of_kind {token : Token} {k : TokenKind} (hk : token.kind = k)
    (h : ∀ cause, k ≠ .error cause) :
    Quiet (fun s => s.cursor.peek = token) (fun _ _ => True) Parser.advance :=
  advance fun cause => hk ▸ h cause

theorem eat {k : TokenKind} (hk : ∀ cause, k ≠ .error cause) : Heeds (Parser.eat k) :=
  Quiet.eat (K := fun _ _ => True) hk (fun _ _ _ => trivial) fun _ _ _ => trivial

theorem eats {k : TokenKind} (hk : ∀ cause, k ≠ .error cause) : Heeds (Parser.eats k) :=
  (eat hk).bind fun _ => pure

theorem expectIdentifier_bind {f : Option Identifier → Parser β}
    (hsome : ∀ name, Heeds (f (some name))) (hnone : ∀ s, Onward s (f none s).2) :
    Heeds (expectIdentifier >>= f) :=
  Quiet.expectIdentifier_bind (fun _ _ _ => trivial) hsome hnone

/-- The newlines that come next are no errors. -/
theorem skipNewlines : Heeds Parser.skipNewlines := by
  refine Quiet.move (n := fun c => (c.after.takeWhile (·.kind == .newline)).length) (fun _ => rfl)
    (fun s _ i hi => Cursor.not_atLexicalError fun cause => ?_) fun _ _ => trivial
  -- The tokens read are the longest prefix of newlines.
  have hget := (List.takeWhile_prefix (l := s.cursor.after) (·.kind == .newline)).getElem hi
  have hnewline : (s.cursor.after.takeWhile (·.kind == .newline))[i].kind = .newline := by
    simpa using List.all_eq_true.1 List.all_takeWhile _ (List.getElem_mem hi)
  have hpeek : (s.cursor.advanceBy i).peek
      = (s.cursor.after.takeWhile (·.kind == .newline))[i] := by
    rw [hget, Cursor.peek, Cursor.peekNth, Cursor.after_advanceBy, List.getElem?_drop, Nat.add_zero,
      List.getElem?_eq_getElem, Option.getD_some]
  rw [Cursor.kind_eq, hpeek, hnewline]
  exact TokenKind.noConfusion

end Heeds

/-! ### Passing over what is not kept -/

namespace Heeds

theorem restOfHeader (before : Nat × Nat) : Heeds (Parser.restOfHeader before) := by
  unfold Parser.restOfHeader
  refine loop (fun (depth, lambdas) => peek_bind fun token => ?_) before
  split
  · exact expected_bind fun s => .refl s
  · exact expected_bind fun s => .refl s
  · rename_i op hk
    refine (advance_of_kind hk fun _ => TokenKind.noConfusion).bind fun _ => ?_
    refine .ite (fun _ => ?_) fun _ => pure
    exact .ite (fun _ => pure) fun _ => pure
  · rename_i hk
    exact (advance_of_kind hk fun _ => TokenKind.noConfusion).bind fun _ => pure
  · exact report_bind fun s => .advance s
  · rename_i herror
    exact (advance herror).bind fun _ => pure

theorem skipHeader : Heeds Parser.skipHeader :=
  restOfHeader (0, 0)

theorem expectColon : Heeds Parser.expectColon := by
  unfold Parser.expectColon
  refine Quiet.look_bind_any fun token => (eats fun _ => TokenKind.noConfusion).bind fun _ => ?_
  refine .ite (fun _ => pure) fun _ => Quiet.expected.bind fun _ => ?_
  exact .ite (fun _ => skipHeader.pre fun _ hs => hs.elim) fun _ => .pure fun _ hs => hs.elim

theorem skipOperands : Heeds Parser.skipOperands := by
  unfold Parser.skipOperands
  refine loop (fun depth => peek_bind fun token => ?_) 0
  split
  · exact .pure fun _ _ => trivial
  · exact .pure fun _ _ => trivial
  · rename_i op hk
    refine .ite (fun _ => .pure fun _ _ => trivial) fun _ => ?_
    exact (advance_of_kind hk fun _ => TokenKind.noConfusion).bind fun _ => pure
  · exact report_bind fun s => .advance s
  · rename_i herror
    exact (advance herror).bind fun _ => pure

/-! ### Imports -/

theorem moreSegments (name : String) (span : Span) : Heeds (Parser.moreSegments name span) := by
  unfold Parser.moreSegments
  refine loop (fun (name, span) => ?_) (name, span)
  refine Quiet.look_bind fun dotted => .ite (fun hdotted => ?_) fun _ => .pure fun _ _ => trivial
  refine Quiet.look_bind fun second => ?_
  split
  -- The point and the name behind it have both been seen before the first of them is read.
  · rename_i segment hsegment
    have hname := keepsBrackets_of_identifier? (Option.isSome_of_eq_some hsegment)
    refine (Quiet.advance (K := fun s => s.cursor.peek = second) (fun s hs => ?_)
      fun s hs => ?_).bind fun _ =>
        (advance (TokenKind.ne_error_of_keepsBrackets hname)).bind fun _ => pure
    · exact Cursor.not_atLexicalError_of_kind (eq_of_beq (hs.1.2.trans hdotted))
        fun _ => TokenKind.noConfusion
    · exact (Cursor.peek_advance s.cursor).trans hs.2
  · exact .pure fun _ _ => trivial

theorem dottedName : Heeds Parser.dottedName := by
  unfold Parser.dottedName
  refine expectIdentifier_bind (fun first => ?_) fun s => .refl s
  exact (moreSegments first.name first.span).map

theorem aliasFor (name : String) (span : Span) : Heeds (Parser.aliasFor name span) := by
  unfold Parser.aliasFor
  refine (eats fun _ => TokenKind.noConfusion).bind fun _ => .ite (fun _ => ?_) fun _ => pure
  exact expectIdentifier_bind (fun ident => pure) fun s => .refl s

theorem moduleAlias : Heeds Parser.moduleAlias := by
  unfold Parser.moduleAlias
  refine dottedName.bind fun name => ?_
  cases name with
  | none => exact pure
  | some name => exact aliasFor name.1 name.2

theorem memberAlias : Heeds Parser.memberAlias := by
  unfold Parser.memberAlias
  exact expectIdentifier_bind (fun ident => aliasFor ident.name ident.span) fun s => .refl s

theorem moduleAliases : Heeds Parser.moduleAliases := by
  unfold Parser.moduleAliases Parser.moreModuleAliases
  refine loop (fun names => moduleAlias.bind fun name => ?_) []
  cases name with
  | none => exact pure
  | some name =>
    refine (eats fun _ => TokenKind.noConfusion).bind fun _ => ?_
    exact .ite (fun _ => pure) fun _ => pure

theorem memberAliases (parenthesized : Bool) : Heeds (Parser.memberAliases parenthesized) := by
  unfold Parser.memberAliases Parser.moreMemberAliases
  refine loop (fun names => Quiet.look_bind_any fun _ => .ite (fun _ => pure) fun _ => ?_) []
  refine memberAlias.bind fun name => ?_
  cases name with
  | none => exact pure
  | some name =>
    refine (eats fun _ => TokenKind.noConfusion).bind fun _ => ?_
    exact .ite (fun _ => pure) fun _ => pure

/-- The word that begins a statement. -/
theorem next : Quiet Legible (fun _ _ => True) Parser.next :=
  Quiet.next (K := fun _ _ => True) (fun _ hs => Cursor.not_atLexicalError hs) fun _ _ => trivial

theorem importStatement : Quiet Legible (fun _ _ => True) Parser.importStatement := by
  unfold Parser.importStatement
  refine next.bind fun word => moduleAliases.bind fun _ => ?_
  exact Quiet.spanFrom_bind fun _ => pure

theorem importLevel : Heeds Parser.importLevel := by
  unfold Parser.importLevel Parser.morePoints
  refine loop (fun level => Quiet.look_bind fun next => ?_) 0
  have hread : (∀ cause, next ≠ .error cause) →
      Quiet (fun s => True ∧ s.cursor.kind = next) (fun _ _ => True) Parser.advance :=
    fun h => Quiet.advance_kind h (fun s hs => hs.2) fun _ _ => trivial
  split
  · exact (hread fun _ => TokenKind.noConfusion).bind fun _ => pure
  · exact (hread fun _ => TokenKind.noConfusion).bind fun _ => pure
  · exact .pure fun _ _ => trivial

theorem importNames : Heeds Parser.importNames := by
  unfold Parser.importNames
  refine (eat fun _ => TokenKind.noConfusion).bind fun star => ?_
  cases star with
  | some star => exact pure
  | none =>
    refine (eats fun _ => TokenKind.noConfusion).bind fun parenthesized => ?_
    refine (memberAliases parenthesized).bind fun names => .ite (fun _ => ?_) fun _ => pure
    refine Quiet.look_bind_any fun token => (eats fun _ => TokenKind.noConfusion).bind fun _ => ?_
    exact .ite (fun _ => expected_bind fun s => .refl s) fun _ => pure

theorem abandonOperands (start : Span) : Heeds (Parser.abandonOperands start) := by
  unfold Parser.abandonOperands
  exact skipOperands.bind fun _ => Quiet.spanFrom_bind fun _ => pure

theorem importFromModule (start : Span) (module : Option String) (level : Nat) :
    Heeds (Parser.importFromModule start module level) := by
  unfold Parser.importFromModule
  refine Quiet.look_bind_any fun token => (eats fun _ => TokenKind.noConfusion).bind fun _ => ?_
  refine .ite (fun _ => ?_) fun _ => Quiet.expected.bind fun _ => ?_
  · exact importNames.bind fun _ => Quiet.spanFrom_bind fun _ => pure
  · exact (abandonOperands start).pre fun _ hs => hs.elim

theorem importFromStatement : Quiet Legible (fun _ _ => True) Parser.importFromStatement := by
  unfold Parser.importFromStatement
  refine next.bind fun word => importLevel.bind fun level => ?_
  refine Quiet.look_bind_any fun _ => .ite (fun _ => importFromModule _ _ _) fun _ => ?_
  refine dottedName.bind fun name => ?_
  cases name with
  | some name => exact importFromModule _ _ _
  | none => exact abandonOperands _

/-! ### Small statements -/

theorem requireFeature (v : Version) (feature : Feature) (span : Span) {I : ParserState → Prop} :
    Quiet I (fun _ => I) (Parser.requireFeature v feature span) := by
  unfold Parser.requireFeature
  refine .ite (fun _ => ?_) fun _ => .pure fun _ hs => hs
  exact Quiet.report.post fun _ _ hs => hs.elim

theorem expression (v : Version) : Heeds (Parser.expression v) :=
  of_keepsBrackets fun _ => Quiet.expression v

theorem starExpressions (v : Version) : Heeds (Parser.starExpressions v) :=
  of_keepsBrackets fun _ => Quiet.starExpressions v

theorem assignedValues (v : Version) (first : Expr) : Heeds (Parser.assignedValues v first) := by
  unfold Parser.assignedValues
  refine (starExpressions v).bind fun value => loop (fun (targets, value) => ?_) _
  refine (eats fun _ => TokenKind.noConfusion).bind fun _ => .ite (fun _ => ?_) fun _ => pure
  exact (starExpressions v).bind fun _ => pure

theorem expressionStatement (v : Version) : Heeds (Parser.expressionStatement v) := by
  unfold Parser.expressionStatement
  refine Quiet.look_bind_any fun start => (starExpressions v).bind fun first => ?_
  refine peek_bind fun token => ?_
  split
  · rename_i hk
    refine (advance_of_kind hk fun _ => TokenKind.noConfusion).bind fun _ => ?_
    exact (assignedValues v first).bind fun _ => Quiet.spanFrom_bind fun _ => pure
  · rename_i op hk
    have hread := advance_of_kind hk fun _ => TokenKind.noConfusion
    refine .ite (fun _ => ?_) fun _ => .ite (fun _ => ?_) fun _ => .pure fun _ _ => trivial
    · refine hread.bind fun _ => (requireFeature v _ _).bind fun _ => ?_
      refine (expression v).bind fun hint => ?_
      refine (eats fun _ => TokenKind.noConfusion).bind fun _ => .ite (fun _ => ?_) fun _ => ?_
      · exact (starExpressions v).map.bind fun _ => Quiet.spanFrom_bind fun _ => pure
      · exact pure.bind fun _ => Quiet.spanFrom_bind fun _ => pure
    · exact hread.bind fun _ => (starExpressions v).bind fun _ => Quiet.spanFrom_bind fun _ => pure
  · exact .pure fun _ _ => trivial

theorem smallStatement (v : Version) : Heeds (Parser.smallStatement v) := by
  unfold Parser.smallStatement
  refine peek_bind fun token => ?_
  split
  · rename_i hk
    exact importStatement.pre fun s hs => .of_peek hs hk fun _ => TokenKind.noConfusion
  · rename_i hk
    exact importFromStatement.pre fun s hs =>
      .of_peek hs hk fun _ => TokenKind.noConfusion
  · rename_i word _ _ hk
    split
    · refine (advance_of_kind hk fun _ => TokenKind.noConfusion).bind fun _ => ?_
      exact skipOperands.bind fun _ => Quiet.spanFrom_bind fun _ => pure
    · exact (expressionStatement v).anywhere
  · exact (expressionStatement v).anywhere

theorem smallStatements (v : Version) : Heeds (Parser.smallStatements v) := by
  unfold Parser.smallStatements
  refine loop (fun stmts => (smallStatement v).bind fun stmt => peek_bind fun token => ?_) []
  split
  · rename_i hk
    refine (advance_of_kind hk fun _ => TokenKind.noConfusion).bind fun _ => ?_
    refine Quiet.look_bind_any fun _ => .ite (fun _ => ?_) fun _ => pure
    exact skipNewlines.bind fun _ => pure
  · rename_i hk
    exact (advance_of_kind hk fun _ => TokenKind.noConfusion).bind fun _ => pure
  · exact .pure fun _ _ => trivial
  · exact .pure fun _ _ => trivial
  · exact expected_bind fun s => .skipLine s

/-! ### Bodies -/

variable {body : Parser (List Stmt)}

theorem block (v : Version) (hbody : Heeds body) : Heeds (Parser.block v body) := by
  unfold Parser.block
  refine Quiet.look_bind_any fun _ => .ite (fun _ => ?_) fun _ => smallStatements v
  refine skipNewlines.bind fun _ => peek_bind fun token => .ite (fun hindent => ?_) fun _ => ?_
  · have hk : token.kind = .indent := eq_of_beq hindent
    exact (advance_of_kind hk fun _ => TokenKind.noConfusion).bind fun _ => hbody
  · exact report_bind fun s => .refl s

/-! ### Definitions -/

/-- The expression after a token that announces one. -/
theorem expressionAfter (v : Version) {mark : TokenKind} (hmark : ∀ cause, mark ≠ .error cause) :
    Heeds (Parser.expressionAfter v mark) := by
  unfold Parser.expressionAfter
  exact (eats hmark).bind fun _ => .ite (fun _ => (expression v).map) fun _ => pure

end Heeds

/-- The brackets `σ` are open, and a parenthesis that comes next begins neither an annotation nor a
    default. -/
def AtParameter (σ : List Bool) (m : Nat) (s : ParserState) : Prop :=
  Inside σ m s ∧ (s.cursor.kind = .operator .lParen → beginsValue s.cursor.before = false)

/-- The parameters of a definition are read, unless something comes next that ends no parameter and
    begins none. -/
def AmongParameters (σ : List Bool) (m : Nat) (s : ParserState) : Prop :=
  AtParameter (true :: σ) m s
    ∨ s.cursor.kind.endsOperand = true ∧ s.cursor.kind ≠ .operator .rParen

section AtParameter

variable {σ : List Bool} {m : Nat} {s : ParserState} {token : Token}

theorem AtParameter.of_ne (h : Inside σ m s) (hk : s.cursor.kind ≠ .operator .lParen) :
    AtParameter σ m s :=
  ⟨h, fun hopen => absurd hopen hk⟩

/-- Behind a token that is neither an equals sign nor a colon no value begins. -/
theorem AtParameter.behind (h : Behind token σ m s) (hplain : token.kind.keepsBrackets = true)
    (hequal : token.kind ≠ .equal) (hcolon : token.kind ≠ .operator .colon) :
    AtParameter σ m s := by
  refine ⟨h.inside hplain, fun _ => ?_⟩
  obtain ⟨before, hbefore, -, -⟩ := h
  rw [hbefore, beginsValue, beq_eq_false_iff_ne.2 hequal, beq_eq_false_iff_ne.2 hcolon,
    Bool.or_false]

theorem AmongParameters.atParameter (h : AmongParameters σ m s)
    (hk : s.cursor.kind.endsOperand = false) : AtParameter (true :: σ) m s := by
  rcases h with hparameter | ⟨hends, -⟩
  · exact hparameter
  · rw [hk] at hends
    cases hends

end AtParameter

namespace Quiet

variable {σ : List Bool} {m : Nat}

/-- No parenthesis comes next behind an annotation or a default. -/
theorem expression_atParameter (v : Version) :
    Quiet (Inside σ m) (fun _ => AtParameter σ m) (Parser.expression v) :=
  (expression_ne_lParen v).post fun _ _ hs => .of_ne hs.1 hs.2

/-- The annotation of a parameter. -/
theorem parameterHint (v : Version) :
    Quiet (AtParameter σ m) (fun _ => AtParameter σ m) (Parser.parameterHint v) := by
  unfold Parser.parameterHint
  refine eat_bind (H := Inside σ m) (fun _ => TokenKind.noConfusion) (fun s hs hk => ?_)
    (fun s hs _ => hs) (fun colon => ?_) (pure fun _ hs => hs)
  · exact hs.1.advance (by rw [hk]; rfl)
  · refine (Heeds.requireFeature v _ _).bind fun _ => map ?_
    exact expression_atParameter v

/-- The default of a parameter. -/
theorem parameterDefault (v : Version) :
    Quiet (AtParameter σ m) (fun _ => AtParameter σ m) (Parser.expressionAfter v .equal) := by
  unfold Parser.expressionAfter
  refine eats_bind (H := Inside σ m) (fun _ => TokenKind.noConfusion) (fun s hs hk => ?_)
    (fun s hs _ => hs) (map (expression_atParameter v)) (pure fun _ hs => hs)
  exact hs.1.advance (by rw [hk]; rfl)

theorem parameter (v : Version) (kind : ParameterKind) :
    Quiet (Inside σ m) (fun _ => AtParameter σ m) (Parser.parameter v kind) := by
  unfold Parser.parameter
  refine expectIdentifier_bind (K := AtParameter σ m) (fun s hs hname => ?_) (fun name => ?_)
    fun s => .refl s
  · have hplain := keepsBrackets_of_identifier? hname
    have hbehind := hs.behind (TokenKind.ne_eof_of_keepsBrackets hplain)
    refine .behind hbehind hplain ?_ ?_
    all_goals
      intro hk
      rw [identifier?, hk] at hname
      cases hname
  · refine (parameterHint v).bind fun _ => (parameterDefault v).bind fun _ => pure fun _ hs => hs

/-- What is passed over behind an opening parenthesis among parameters. -/
theorem enterSublist :
    Quiet (fun s => AtParameter (true :: σ) m s ∧ s.cursor.kind = .operator .lParen)
      (fun _ s => ∃ b, Inside (b :: true :: σ) m s ∧
        ∀ i < Cursor.closingDistance 0 s.cursor.after, ¬ (s.cursor.advanceBy i).AtLexicalError)
      Parser.advance := by
  refine advance_kind (K := fun s => ∃ b, Inside (b :: true :: σ) m s ∧
      ∀ i < Cursor.closingDistance 0 s.cursor.after, ¬ (s.cursor.advanceBy i).AtLexicalError)
    (fun _ => TokenKind.noConfusion) (fun s hs => hs.2) fun s hs => ?_
  have hne : s.cursor.kind ≠ .eof := by rw [hs.2]; exact TokenKind.noConfusion
  have hk : s.cursor.peek.kind = .operator .lParen := hs.2
  obtain ⟨b, hinside⟩ := hs.1.1.advance_opening hs.2 rfl
  refine ⟨b, hinside, fun i hi => Cursor.not_atLexicalError_of_passes ?_⟩
  rw [ParserState.move, Cursor.before_advance hne]
  refine passesOver_behind ?_
  -- The bracket that the parameters stand in is the innermost one.
  have hhead : (openBrackets s.cursor.before).head? = some true := by
    rw [hs.1.1.1]
    rfl
  simpa [passedBehind, hk, hhead, hs.1.2 hs.2] using hi

/-- A list of parameters among parameters is passed over. -/
theorem sublistParameter (v : Version) :
    Quiet (fun s => AtParameter (true :: σ) m s ∧ s.cursor.kind = .operator .lParen)
      (fun _ => AmongParameters σ m) (Parser.sublistParameter v) := by
  unfold Parser.sublistParameter
  refine enterSublist.bind fun _ => exists_pre fun b => ?_
  refine (skipToClosing (fun s hs => hs.1) fun s hs => hs.2).bind fun _ => ?_
  have hclose : Quiet (Stopped (b :: true :: σ) m) (fun _ => AmongParameters σ m)
      (Parser.eat (.operator .rParen)) := by
    refine eat (K := fun _ => AmongParameters σ m) (fun _ => TokenKind.noConfusion)
      (fun s hs hk => .inl ⟨?_, fun _ => ?_⟩) fun s hs hk => .inr ⟨?_, hk⟩
    -- Behind the closing parenthesis no value begins.
    · have hinside := hs.inside (by rw [hk]; rfl)
      exact hinside.advance_closing hk rfl
    · have hpeek : s.cursor.peek.kind = .operator .rParen := hk
      rw [ParserState.move, Cursor.before_advance (by rw [hk]; exact TokenKind.noConfusion),
        beginsValue, hpeek]
      rfl
    -- Another bracket or the end of the line stands there, which begins no parameter.
    · rcases hs with hend | ⟨⟨op, hop, hclosing⟩, -⟩
      · revert hend
        cases s.cursor.kind <;>
          simp [TokenKind.isLineEnd, TokenKind.endsOperand, TokenKind.isLayout]
      · rw [hop]
        exact hclosing
  refine hclose.discard.bind fun _ => ?_
  refine eats_bind (H := Inside (true :: σ) m) (fun _ => TokenKind.noConfusion)
    (fun s hs hk => ?_) (fun s hs _ => hs) ?_ (pure fun _ hs => hs)
  · have hinside := (hs.atParameter (by rw [hk]; rfl)).1
    exact hinside.advance (by rw [hk]; rfl)
  · exact (expression_atParameter v).discard.post fun _ _ hs => .inl hs

/-- The parameters of a definition. -/
theorem parameters (v : Version) :
    Quiet (AtParameter (true :: σ) m) (fun _ _ => True) (Parser.parameters v) := by
  unfold Parser.parameters Parser.moreParameters
  refine (loop (I := fun _ => AmongParameters σ m) (K := fun _ _ => True)
    (fun (params, keywordOnly) => peek_bind fun token => ?_) (fun _ _ _ => trivial) _).pre
    fun s hs => .inl hs
  have atParameter : token.kind.endsOperand = false → ∀ s : ParserState,
      AmongParameters σ m s ∧ s.cursor.peek = token → AtParameter (true :: σ) m s :=
    fun hends s hs => hs.1.atParameter (by rw [Cursor.kind_eq, hs.2, hends])
  -- A mark between parameters, which stands before no value.
  have mark : ∀ op : Operator, token.kind = .operator op →
      (TokenKind.operator op).keepsBrackets = true → op ≠ .colon →
      Quiet (fun s => AmongParameters σ m s ∧ s.cursor.peek = token)
        (fun _ => AtParameter (true :: σ) m) Parser.advance := by
    intro op hk hplain hcolon
    refine advance_kind (fun _ => TokenKind.noConfusion)
      (fun s hs => by rw [Cursor.kind_eq, hs.2, hk]) fun s hs => ?_
    · have hends : token.kind.endsOperand = false := by
        rw [hk]
        exact (TokenKind.no_bracket_of_keepsBrackets hplain).2
      have hinside := (atParameter hends s hs).1
      have hbehind := hinside.behind
        (by rw [Cursor.kind_eq, hs.2, hk]; exact TokenKind.noConfusion)
      rw [hs.2] at hbehind
      refine .behind hbehind (by rw [hk, hplain]) ?_ ?_
      · rw [hk]
        exact TokenKind.noConfusion
      · rw [hk]
        exact fun h => hcolon (TokenKind.operator.inj h)
  split
  · rename_i hk
    exact ((Heeds.advance_of_kind hk fun _ => TokenKind.noConfusion).pre fun s hs => hs.2).bind
      fun _ => pure fun _ _ => trivial
  · rename_i hk
    exact (mark _ hk rfl Operator.noConfusion).bind fun _ => pure fun s hs => .inl hs
  · rename_i hk
    exact (mark _ hk rfl Operator.noConfusion).bind fun _ =>
      (Heeds.requireFeature v _ _).bind fun _ => pure fun s hs => .inl hs
  · rename_i hk
    refine (mark _ hk rfl Operator.noConfusion).bind fun _ => look_bind_any fun _ => ?_
    refine .ite (fun _ => ?_) fun _ => pure fun s hs => .inl hs
    exact ((parameter v _).pre fun s hs => hs.1).bind fun _ => pure fun s hs => .inl hs
  · rename_i hk
    refine (mark _ hk rfl Operator.noConfusion).bind fun _ => ?_
    exact ((parameter v _).pre fun s hs => hs.1).bind fun _ => pure fun s hs => .inl hs
  · rename_i hk
    refine ((sublistParameter v).pre fun s hs => ⟨atParameter ?_ s hs, ?_⟩).bind fun _ =>
      pure fun s hs => hs
    · rw [hk]
      rfl
    · rw [Cursor.kind_eq, hs.2, hk]
  · refine .ite (fun hname => ?_) fun _ => expected.bind fun _ => unreached fun s => ?_
    · have hinside := atParameter (endsOperand_of_identifier? hname)
      refine ((parameter v _).pre fun s hs => (hinside s hs).1).bind fun _ => ?_
      exact pure fun s hs => .inl hs
    · exact (Onward.skipToClosing s).trans (Onward.eat _ _)

theorem parameterList (v : Version) :
    Quiet (fun s => beginsParameters s.cursor.before = true) (fun _ _ => True)
      (Parser.parameterList v) := by
  unfold Parser.parameterList
  refine look_bind_any fun token => ?_
  refine eats_bind (H := fun s => ∃ i : List Bool × Nat, AtParameter (true :: i.1) i.2 s)
    (M := fun _ => True) (fun _ => TokenKind.noConfusion) (fun s hs hk => ?_)
    (fun _ _ _ => trivial) ?_ (Heeds.expected_bind fun s => .refl s)
  · have hne : s.cursor.kind ≠ .eof := by rw [hk]; exact TokenKind.noConfusion
    have hpeek : s.cursor.peek.kind = .operator .lParen := hk
    refine ⟨(openBrackets s.cursor.before, s.remaining),
      ⟨?_, Cursor.remaining_advance_lt hne⟩, fun _ => ?_⟩
    · rw [ParserState.move, Cursor.before_advance hne, openBrackets_opening hpeek rfl, hs]
      rfl
    · rw [ParserState.move, Cursor.before_advance hne, beginsValue, hpeek]
      rfl
  · exact exists_pre fun i => parameters v

end Quiet

/-! ### Statements -/

namespace Heeds

variable {body : Parser (List Stmt)}

/-- A definition without a name, which has been reported. -/
theorem onward_abandonLine (start : Span) (s : ParserState) :
    Onward s (Parser.abandonLine start s).2 :=
  .skipLine s

theorem classArguments (v : Version) : Heeds (Parser.classArguments v) := by
  unfold Parser.classArguments
  refine Quiet.eats_bind
    (H := fun s => ∃ i : Bool × List Bool × Nat, Inside (i.1 :: i.2.1) i.2.2 s)
    (fun _ => TokenKind.noConfusion) (fun s _ hk => ?_) (fun _ _ _ => trivial)
    (Quiet.exists_pre fun i => ?_) pure
  · have hinside : Inside (openBrackets s.cursor.before) (s.remaining + 1) s :=
      ⟨rfl, Nat.lt_succ_self _⟩
    obtain ⟨b, hopen⟩ := hinside.advance_opening hk rfl
    exact ⟨(b, _, _), hopen⟩
  · exact (Quiet.callArguments v (fun _ => Quiet.parseExpr v _) i.1 i.2.1).post
      fun _ _ _ => trivial

theorem classStatement (v : Version) (hbody : Heeds body) (decorators : List Expr)
    (start : Option Span) :
    Quiet Legible (fun _ _ => True) (Parser.classStatement v body decorators start) := by
  unfold Parser.classStatement
  refine next.bind fun word => ?_
  refine expectIdentifier_bind (fun name => ?_) (onward_abandonLine _)
  refine (classArguments v).bind fun _ => expectColon.bind fun _ => (block v hbody).bind fun _ => ?_
  exact Quiet.spanFrom_bind fun _ => pure

theorem functionStatement (v : Version) (hbody : Heeds body) (decorators : List Expr)
    (start : Option Span) (isAsync : Bool) :
    Quiet (fun s => s.cursor.kind = .keyword .define) (fun _ _ => True)
      (Parser.functionStatement v body decorators start isAsync) := by
  unfold Parser.functionStatement
  refine (Quiet.next
    (K := fun _ s => s.cursor.before.head?.map Token.kind = some (.keyword .define))
    (fun s hs => ?_) fun s hs => ?_).bind fun word => ?_
  · exact Cursor.not_atLexicalError_of_kind hs fun _ => TokenKind.noConfusion
  · show s.cursor.advance.before.head?.map Token.kind = _
    rw [Cursor.before_advance (by rw [hs]; exact TokenKind.noConfusion), List.head?_cons,
      Option.map_some, ← Cursor.kind_eq, hs]
  · refine Quiet.expectIdentifier_bind (K := fun s => beginsParameters s.cursor.before = true)
      (fun s hs hname => ?_) (fun name => ?_) (onward_abandonLine _)
    · have hne := TokenKind.ne_eof_of_keepsBrackets (keepsBrackets_of_identifier? hname)
      show beginsParameters s.cursor.advance.before = true
      rw [Cursor.before_advance hne]
      cases hbefore : s.cursor.before with
      | nil =>
        rw [hbefore] at hs
        cases hs
      | cons t before =>
        rw [hbefore, List.head?_cons, Option.map_some, Option.some_inj] at hs
        rw [beginsParameters, hs]
        rfl
    · refine (Quiet.parameterList v).bind fun _ => ?_
      refine (expressionAfter v fun _ => TokenKind.noConfusion).bind fun _ => ?_
      refine expectColon.bind fun _ => ?_
      exact (block v hbody).bind fun _ => Quiet.spanFrom_bind fun _ => pure

/-! ### Control flow -/

theorem clause (v : Version) (hbody : Heeds body) (kind : ClauseKind) :
    Quiet Legible (fun _ _ => True) (Parser.clause v body kind) := by
  unfold Parser.clause
  refine next.bind fun word => skipHeader.bind fun _ => (block v hbody).bind fun _ => ?_
  exact Quiet.spanFrom_bind fun _ => pure

/-- The words that go on with a statement are no errors. -/
theorem legible_of_furtherClause? {compound : CompoundKind} {s : ParserState}
    {further : ClauseKind}
    (h : CompoundKind.furtherClause? compound s.cursor.kind = some further) : Legible s := by
  intro cause hk
  rw [hk] at h
  cases compound <;> cases h

theorem furtherClauses (v : Version) (hbody : Heeds body) (compound : CompoundKind)
    (first : Clause) : Heeds (Parser.furtherClauses v body compound first) := by
  unfold Parser.furtherClauses Parser.moreClauses
  refine loop (fun clauses => Quiet.look_bind fun further => ?_) _
  cases further with
  | none => exact .pure fun _ _ => trivial
  | some further =>
    refine ((clause v hbody further).pre fun s hs => ?_).bind fun _ => pure
    exact legible_of_furtherClause? hs.2

theorem compoundStatement (v : Version) (hbody : Heeds body) (compound : CompoundKind)
    (isAsync : Bool) (start : Span) :
    Quiet Legible (fun _ _ => True) (Parser.compoundStatement v body compound isAsync start) := by
  unfold Parser.compoundStatement
  refine (clause v hbody _).bind fun first => ?_
  refine (furtherClauses v hbody compound first).bind fun _ => ?_
  exact Quiet.spanFrom_bind fun _ => pure

/-- A word that is special in some places only is no error. -/
theorem legible_of_isWord {s : ParserState} {token : Token} {word : String}
    (h : s.cursor.peek = token) (hword : token.isWord word = true) : Legible s := by
  rw [Token.isWord, Bool.and_eq_true] at hword
  exact .of_peek h (eq_of_beq hword.1) fun _ => TokenKind.noConfusion

theorem matchCases (v : Version) (hbody : Heeds body) : Heeds (Parser.matchCases v body) := by
  unfold Parser.matchCases
  refine loop (fun clauses => skipNewlines.bind fun _ => peek_bind fun token => ?_) []
  split
  · exact .pure fun _ _ => trivial
  · rename_i hk
    exact (advance_of_kind hk fun _ => TokenKind.noConfusion).bind fun _ => pure
  · refine .ite (fun hword => ?_) fun _ => expected_bind fun s => .skipLine s
    exact ((clause v hbody .case).pre fun s hs => legible_of_isWord hs hword).bind fun _ => pure

theorem matchBlock (v : Version) (hbody : Heeds body) : Heeds (Parser.matchBlock v body) := by
  unfold Parser.matchBlock
  refine skipNewlines.bind fun _ => peek_bind fun token => .ite (fun hindent => ?_) fun _ => ?_
  · have hk : token.kind = .indent := eq_of_beq hindent
    exact (advance_of_kind hk fun _ => TokenKind.noConfusion).bind fun _ => matchCases v hbody
  · exact report_bind fun s => .refl s

theorem matchStatement (v : Version) (hbody : Heeds body) :
    Quiet Legible (fun _ _ => True) (Parser.matchStatement v body) := by
  unfold Parser.matchStatement
  refine next.bind fun word => skipHeader.bind fun _ => (matchBlock v hbody).bind fun _ => ?_
  exact Quiet.spanFrom_bind fun _ => pure

/-! ### Decorated and asynchronous definitions -/

theorem asyncStatement (v : Version) (hbody : Heeds body) (decorators : List Expr)
    (start : Option Span) :
    Quiet Legible (fun _ _ => True) (Parser.asyncStatement v body decorators start) := by
  unfold Parser.asyncStatement
  refine next.bind fun word => peek_bind fun token => ?_
  split
  · rename_i hk
    refine (functionStatement v hbody decorators _ true).pre fun s hs => ?_
    rw [Cursor.kind_eq, hs, hk]
  · rename_i hk
    exact (compoundStatement v hbody .for true _).pre fun s hs =>
      .of_peek hs hk fun _ => TokenKind.noConfusion
  · rename_i hk
    exact (compoundStatement v hbody .with true _).pre fun s hs =>
      .of_peek hs hk fun _ => TokenKind.noConfusion
  · exact expected_bind (onward_abandonLine _)

theorem endDecorator : Heeds Parser.endDecorator := by
  unfold Parser.endDecorator
  refine peek_bind fun token => ?_
  split
  · rename_i hk
    exact advance_of_kind hk fun _ => TokenKind.noConfusion
  · exact .pure fun _ _ => trivial
  · exact expected_bind fun s => .skipLine s

theorem decoratorList (v : Version) : Heeds (Parser.decoratorList v) := by
  unfold Parser.decoratorList
  refine loop (fun decorators => (eats fun _ => TokenKind.noConfusion).bind fun _ => ?_) []
  refine .ite (fun _ => ?_) fun _ => pure
  unfold Parser.decorator
  have hdecorator : Heeds (do
      let value ← Parser.expression v
      Parser.endDecorator
      Parser.skipNewlines
      Pure.pure value) :=
    (expression v).bind fun _ => endDecorator.bind fun _ => skipNewlines.bind fun _ => pure
  exact hdecorator.bind fun _ => pure

/-- The word before an asynchronous definition is no error. -/
theorem legible_of_atAsync {v : Version} {s : ParserState}
    (h : s.cursor.atAsync v 0 = true) : Legible s := by
  rw [Cursor.atAsync, Bool.and_eq_true, Bool.or_eq_true, Bool.and_eq_true] at h
  rcases h.1 with hword | ⟨-, hword⟩
  · exact .of_kind (eq_of_beq hword) fun _ => TokenKind.noConfusion
  · exact legible_of_isWord rfl hword

theorem decoratedStatement (v : Version) (hbody : Heeds body) :
    Heeds (Parser.decoratedStatement v body) := by
  unfold Parser.decoratedStatement
  refine Quiet.look_bind_any fun start => (decoratorList v).bind fun decorators => ?_
  refine peek_bind fun token => ?_
  split
  · rename_i hk
    refine (functionStatement v hbody decorators _ false).pre fun s hs => ?_
    rw [Cursor.kind_eq, hs, hk]
  · rename_i hk
    exact (classStatement v hbody decorators _).pre fun s hs =>
      .of_peek hs hk fun _ => TokenKind.noConfusion
  · refine Quiet.look_bind fun isAsync => .ite (fun h => ?_) fun _ => expected_bind fun s => .refl s
    exact (asyncStatement v hbody decorators _).pre fun s hs => legible_of_atAsync (hs.2.trans h)

/-! ### Statements -/

/-- A statement heeds the lexical errors in it. -/
theorem statement (v : Version) (hbody : Heeds body) : Heeds (Parser.statement v body) := by
  unfold Parser.statement
  refine peek_bind fun token => ?_
  have hlegible : ∀ {k : TokenKind}, token.kind = k → (∀ cause, k ≠ .error cause) →
      ∀ s : ParserState, s.cursor.peek = token → Legible s := fun hk h s hs => .of_peek hs hk h
  -- The word that begins the statement is known in each case, and is no error.
  split
  · exact report_bind fun s => .advance s
  · exact (decoratedStatement v hbody).map.pre fun _ _ => trivial
  · rename_i hk
    exact (functionStatement v hbody [] none false).map.pre fun s hs => by
      rw [Cursor.kind_eq, hs, hk]
  · rename_i hk
    exact (classStatement v hbody [] none).map.pre (hlegible hk fun _ => TokenKind.noConfusion)
  · rename_i hk
    exact (compoundStatement v hbody .if false _).map.pre
      (hlegible hk fun _ => TokenKind.noConfusion)
  · rename_i hk
    exact (compoundStatement v hbody .while false _).map.pre
      (hlegible hk fun _ => TokenKind.noConfusion)
  · rename_i hk
    exact (compoundStatement v hbody .for false _).map.pre
      (hlegible hk fun _ => TokenKind.noConfusion)
  · rename_i hk
    exact (compoundStatement v hbody .try false _).map.pre
      (hlegible hk fun _ => TokenKind.noConfusion)
  · rename_i hk
    exact (compoundStatement v hbody .with false _).map.pre
      (hlegible hk fun _ => TokenKind.noConfusion)
  · refine Quiet.look_bind fun isAsync => .ite (fun h => ?_) fun _ => ?_
    · exact (asyncStatement v hbody [] none).map.pre fun s hs => legible_of_atAsync (hs.2.trans h)
    · refine Quiet.look_bind fun isMatch => .ite (fun h => ?_) fun _ => (smallStatements v).anywhere
      refine (matchStatement v hbody).map.pre fun s hs => ?_
      have hmatch : s.cursor.atMatch v = true := hs.2.trans h
      simp only [Cursor.atMatch, Bool.and_eq_true] at hmatch
      exact legible_of_isWord rfl hmatch.1.1.2

theorem strayBlock {indent : Token} (hbody : Heeds body) {I : ParserState → Prop} :
    Quiet I (fun _ _ => True) (Parser.strayBlock body indent) :=
  report_bind fun s => (Onward.advance s).trans (hbody.onward _)

/-- A body heeds the lexical errors in it, if the bodies in it do. -/
theorem bodyWith (v : Version) (hbody : Heeds body) : Heeds (Parser.bodyWith v body) := by
  unfold Parser.bodyWith Parser.moreStatements
  refine loop (fun stmts => skipNewlines.bind fun _ => peek_bind fun token => ?_) []
  split
  · exact .pure fun _ _ => trivial
  · rename_i hk
    exact (advance_of_kind hk fun _ => TokenKind.noConfusion).bind fun _ => pure
  · exact (strayBlock hbody).bind fun _ => pure
  · exact ((statement v hbody).bind fun _ => pure).pre fun _ _ => trivial

/-- A body heeds the lexical errors in it. -/
theorem indentedBody (v : Version) : Heeds (Parser.indentedBody v) := by
  -- Induction on the number of tokens left, which bounds the bodies in the body.
  suffices ∀ m, ∀ s, s.remaining = m → Onward s (Parser.indentedBody v s).2 ∧
      ((Parser.indentedBody v s).2.errors = s.errors →
        Unharmed s (Parser.indentedBody v s).2) from
    ⟨fun s => (this _ s rfl).1, fun s _ hsame => ⟨(this _ s rfl).2 hsame, trivial⟩⟩
  intro m
  induction m using Nat.strongRecOn with
  | ind m ih =>
    intro s hm
    have hbody : Heeds (Parser.nested s.remaining [] fun t _ => Parser.indentedBody v t) :=
      Quiet.nested (fun t hlt => (ih _ (hm ▸ hlt) t rfl).1)
        (fun t hlt _ hsame => ⟨(ih _ (hm ▸ hlt) t rfl).2 hsame, trivial⟩) fun _ _ _ => trivial
    rw [Parser.indentedBody]
    exact ⟨(bodyWith v hbody).onward s, fun hsame => ((bodyWith v hbody).silent s trivial hsame).1⟩

theorem moduleItem (v : Version) : Heeds (Parser.moduleItem v) := by
  unfold Parser.moduleItem
  refine peek_bind fun token => ?_
  split
  · rename_i hk
    exact (advance_of_kind hk fun _ => TokenKind.noConfusion).bind fun _ => pure
  · exact strayBlock (indentedBody v)
  · exact (statement v (indentedBody v)).anywhere

/-- A module is read up to the end of the input. -/
theorem moduleBody (v : Version) :
    Quiet (fun _ => True) (fun _ s => s.cursor.kind = .eof) (Parser.moduleBody v) := by
  unfold Parser.moduleBody Parser.moduleStep
  refine Quiet.loop_reads (I := fun _ _ => True) (K := fun _ s => s.cursor.kind = .eof)
    (fun stmts l => ?_) []
  -- An item reads a token, so the loop ends at the end of the input only.
  have hskip : Quiet (fun s => True ∧ s.remaining < l + 1)
      (fun _ s => s.cursor.kind ≠ .newline ∧ s.remaining < l + 1) Parser.skipNewlines :=
    { onward := skipNewlines.onward
      silent := fun s hs hsame => by
        refine ⟨(skipNewlines.silent s trivial hsame).1, Cursor.kind_skipNewlines s.cursor, ?_⟩
        exact Nat.lt_of_le_of_lt (Onward.skipNewlines s).remaining_le hs.2 }
  have hitem : Quiet
      (fun s => (s.cursor.kind ≠ .newline ∧ s.remaining < l + 1) ∧ s.cursor.kind ≠ .eof)
      (fun _ s => s.remaining < l) (Parser.moduleItem v) :=
    { onward := (moduleItem v).onward
      silent := fun s hs hsame => by
        refine ⟨((moduleItem v).silent s trivial hsame).1, ?_⟩
        exact Nat.lt_of_lt_of_le (Sim.moduleItem_lt v hs.1.1 hs.2) (Nat.le_of_lt_succ hs.1.2) }
  refine hskip.bind fun _ => Quiet.look_bind fun atEnd => .ite (fun h => ?_) fun h => ?_
  · exact .pure fun s hs => eq_of_beq (hs.2.trans h)
  · refine (hitem.pre fun s hs => ⟨hs.1, fun hk => h ?_⟩).bind fun _ =>
      .pure fun s hs => ⟨trivial, hs⟩
    rw [← hs.2, hk]
    rfl

end Heeds

/-! ### Texts -/

/-- Reading some tokens. -/
theorem Cursor.advanceBy_length (front back before : List Token) (size : Nat) :
    Cursor.advanceBy front.length ⟨before, front ++ back, size⟩
      = ⟨front.reverse ++ before, back, size⟩ := by
  induction front generalizing before with
  | nil => rfl
  | cons t front ih =>
    rw [List.length_cons, Cursor.advanceBy, List.reverse_cons, List.append_assoc]
    exact ih (t :: before)

/-- Behind the first end of input nothing else comes. -/
theorem Orderly.kind_eof {c c' : Cursor} (h : Orderly c.after) (hk : c.kind = .eof) {n : Nat}
    (hafter : c'.after = c.after.drop n) : c'.kind = .eof := by
  rcases h with hnil | ⟨us, mid, k, size, hus, hlaid⟩
  · rw [hnil, List.drop_nil] at hafter
    rw [Cursor.kind_eq, Cursor.peek, Cursor.peekNth, hafter]
    rfl
  · cases us with
    | nil =>
      rw [hus, List.nil_append] at hafter
      cases n with
      | zero => rw [Cursor.kind_eq, Cursor.peek_of_after hafter, Token.endOfInput_kind]
      | succ n =>
        rw [List.drop_succ_cons, List.drop_nil] at hafter
        rw [Cursor.kind_eq, Cursor.peek, Cursor.peekNth, hafter]
        rfl
    | cons u us =>
      rw [Cursor.kind_eq, Cursor.peek_of_after (hus.trans List.cons_append)] at hk
      exact absurd hk hlaid.kind_ne_eof

/-- A text has errors if it has a lexical error that is not passed over: one that stands neither
    among the parameters of a lambda, nor behind the `for` of a comprehension, nor in a list of
    parameters among the parameters of a definition. -/
theorem SyntaxTree.lexical_error_reported (v : Version) (source : String) (c : Cursor)
    (hc : c.tokens = tokenize v source) {cause : LexError} (hk : c.kind = .error cause)
    (hseen : c.passedOver = false) : (SyntaxTree.parse v source).errors ≠ [] := by
  -- A run that reports nothing has come by the place of the error, where it would have been met.
  intro hnone
  let s := Parser.start v source
  let t := (Parser.moduleBody v s).2
  have hsame : t.errors = s.errors := hnone
  obtain ⟨⟨n, hread, hmet⟩, heof⟩ := (Heeds.moduleBody v).silent s trivial hsame
  -- The place of the error among the places that the parser has come by.
  have hplace : s.cursor.advanceBy c.before.length
      = ⟨c.before, c.after, source.utf8ByteSize⟩ := by
    have htokens : c.before.reverse ++ c.after = tokenize v source := hc
    have hlength := Cursor.advanceBy_length c.before.reverse c.after [] source.utf8ByteSize
    rw [htokens, List.length_reverse, List.reverse_reverse, List.append_nil] at hlength
    exact hlength
  by_cases hlt : c.before.length < n
  · refine hmet c.before.length hlt ?_
    have hkind : (⟨c.before, c.after, source.utf8ByteSize⟩ : Cursor).kind = c.kind :=
      Cursor.kind_of_after_eq rfl
    rw [hplace]
    exact ⟨⟨cause, hkind.trans hk⟩, hseen⟩
  · -- What the parser has not come by is the end of the input.
    have htokens : t.cursor.tokens = tokenize v source := hread.tokens
    have horderly : Orderly t.cursor.after := .of_tokenize htokens
    have hafter : c.after = t.cursor.after.drop (c.before.length - n) := by
      have hdrop := congrArg Cursor.after hplace
      rw [Cursor.after_advanceBy] at hdrop
      rw [hread.after, List.drop_drop, Nat.add_sub_cancel' (Nat.le_of_not_lt hlt), hdrop]
    rw [horderly.kind_eof heof hafter] at hk
    cases hk

/-- A lexical error before the `for` of a comprehension. -/
theorem SyntaxTree.lexical_error_reported_in_comprehension :
    let source := "x = [$ for i in y]\n"
    let c := (Parser.startBehind .v37 source 3).cursor
    c.tokens = tokenize .v37 source ∧ c.kind = .error .unexpectedCharacter ∧ c.passedOver = false
      ∧ (SyntaxTree.parse .v37 source).errors ≠ [] := by
  intro source c
  have hc : c.tokens = tokenize .v37 source := by decide +kernel
  have hk : c.kind = .error .unexpectedCharacter := by decide +kernel
  have hseen : c.passedOver = false := by decide +kernel
  exact ⟨hc, hk, hseen, SyntaxTree.lexical_error_reported .v37 source c hc hk hseen⟩

/-- In each of the three places a lexical error goes without a report: among the parameters of a
    lambda, behind the `for` of a comprehension, and in a list of parameters among parameters. -/
theorem SyntaxTree.lexical_errors_dropped :
    ((∃ t ∈ tokenize .v37 "x = lambda $: 1\n", t.kind = .error .unexpectedCharacter)
        ∧ (SyntaxTree.parse .v37 "x = lambda $: 1\n").errors = [])
      ∧ ((∃ t ∈ tokenize .v37 "x = [i for $ in y]\n", t.kind = .error .unexpectedCharacter)
        ∧ (SyntaxTree.parse .v37 "x = [i for $ in y]\n").errors = [])
      ∧ ((∃ t ∈ tokenize .v37 "def f((a, $)): pass\n", t.kind = .error .unexpectedCharacter)
        ∧ (SyntaxTree.parse .v37 "def f((a, $)): pass\n").errors = []) := by
  decide +kernel

end PyAtlas
