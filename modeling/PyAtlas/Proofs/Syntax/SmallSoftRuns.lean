import PyAtlas.Proofs.Syntax.ExprSoftRuns
import PyAtlas.Proofs.Syntax.LexicalErrors

/-!
# Small statements with two words reserved and without

Where a word is reserved, an expression or a dotted name stops in front of it. No small statement
goes on from there, so this is reported when its end is looked for. Up to there a small statement is
read in the same way under both grammars, unless it is an annotated assignment and the version that
does not reserve the words lacks them.

## Key definitions
- `Halted`: a statement stops in front of a reserved word.
- `Beyond`: among some statements there is one that the version lacks.

## Key results
- `Leads.smallStatementEnd`, `Leads.expectColon`: where a statement stops, this is reported.
- `Mirrors.smallStatement`: a small statement is the same, or it stops, or it is lacked.
-/

namespace PyAtlas

open PyAtlas.Parser

variable {source : String} {m : Nat} {v : Version} {s u : ParserState}

/-! ### Where a statement stops -/

/-- Kinds of the tokens where a statement stops in front of a reserved word: the word itself or the
    point before it. -/
def TokenKind.isHalt : TokenKind → Bool
  | .keyword .async | .keyword .await | .operator .dot => true
  | _ => false

/-- A statement stops in front of a reserved word. -/
def Halted (s : ParserState) : Prop := s.cursor.kind.isHalt = true

theorem Halted.ne (h : Halted s) {k : TokenKind} (hk : k.isHalt = false) : s.cursor.kind ≠ k := by
  rintro rfl
  rw [Halted, hk] at h
  cases h

theorem AtAsync.halted (h : AtAsync s) : Halted s := by
  have hk : s.cursor.kind = .keyword .async := h
  rw [Halted, hk]
  rfl

/-- Where a word stops an expression, the statement stops. -/
theorem InStep.halts {α : Type} {q p : Parser α} (h : InStep source m AtAsync q p) :
    InStep source m Halted q p :=
  h.weaken (fun _ _ hs => hs) (fun _ _ hs => hs.halted) fun _ _ _ _ hs => .inr hs

/-! ### Passing over what is not kept -/

namespace InStep

theorem restOfHeader (before : Nat × Nat) :
    InStep source m Nowhere (Parser.restOfHeader before) (Parser.restOfHeader before) := by
  unfold Parser.restOfHeader
  refine InStep.loop_all (fun (depth, lambdas) => ?_) before
  refine .peek_cases (fun token _ => ?_) fun token hword => ?_
  · split
    · exact .expected_bind fun s => .refl s
    · exact .expected_bind fun s => .refl s
    · refine .advance_bind (.ite (fun _ => ?_) fun _ => .done)
      exact .ite (fun _ => .done) fun _ => .done
    · exact .advance_bind .done
    · exact .report_bind Onward.advance
    · exact .advance_bind .done
  · have hpassed : InStep source m Nowhere
        (advance >>= fun _ => pure (.again (depth, lambdas)) : Parser (LoopStep (Nat × Nat) Unit))
        (advance >>= fun _ => pure (.again (depth, lambdas))) := .advance_bind .done
    rcases hword with hk | hk
    all_goals
      simp only [Token.soften_kind, hk, TokenKind.soften]
      exact hpassed

theorem skipHeader : InStep source m Nowhere Parser.skipHeader Parser.skipHeader :=
  restOfHeader (0, 0)

end InStep

theorem Parser.onward_missingColon (token : Token) (s : ParserState) :
    Onward s ((if !token.kind.isLineEnd then skipHeader else pure ()) s).2 := by
  split
  · exact Heeds.skipHeader.onward s
  · exact .refl s

/-- Behind a header the colon is missed where a word stops it. -/
theorem Leads.expectColon : Leads Halted (fun _ => Nowhere) Parser.expectColon := by
  unfold Parser.expectColon
  refine .look_any fun token => .eats_bind (fun s hs => hs.ne rfl) ?_
  exact .expected_bind (onward_missingColon token)

namespace InStep

theorem expectColon : InStep source m Nowhere Parser.expectColon Parser.expectColon := by
  unfold Parser.expectColon
  exact .peek_any fun token => .eats_bind rfl .done (.expected_bind (onward_missingColon token))

theorem skipOperands : InStep source m Nowhere Parser.skipOperands Parser.skipOperands := by
  unfold Parser.skipOperands
  refine InStep.loop_all (fun depth => .peek_cases (fun token _ => ?_) fun token hword => ?_) 0
  · split
    · exact .done
    · exact .done
    · exact .ite (fun _ => .done) fun _ => .advance_bind .done
    · exact .report_bind Onward.advance
    · exact .advance_bind .done
  · have hpassed : InStep source m Nowhere
        (advance >>= fun _ => pure (.again depth) : Parser (LoopStep Nat Unit))
        (advance >>= fun _ => pure (.again depth)) := .advance_bind .done
    rcases hword with hk | hk
    all_goals
      simp only [Token.soften_kind, hk, TokenKind.soften]
      exact hpassed

theorem abandonOperands (start : Span) :
    InStep source m Nowhere (Parser.abandonOperands start) (Parser.abandonOperands start) := by
  unfold Parser.abandonOperands
  exact skipOperands.bind_all fun _ => .spanFrom_bind start fun _ => .done

end InStep

/-! ### Imports -/

namespace InStep

/-- A dotted name stops in front of a point behind which a reserved word stands. -/
theorem moreSegments (name : String) (span : Span) :
    InStep source m Halted (Parser.moreSegments name span) (Parser.moreSegments name span) := by
  unfold Parser.moreSegments
  refine InStep.loop_ended (fun (name, span) => ?_) (name, span)
  refine .look_bind (fun s u hs => ?_) fun found => .ite (fun hfound => ?_) fun _ => ?_
  · rw [hs.cursor_eq, Cursor.kind_soften, Bool.eq_iff_iff, beq_iff_eq, beq_iff_eq,
      TokenKind.soften_eq_iff rfl]
  · refine .peekNth_bind 1 (fun _ _ hs => hs.1) (fun token _ => ?_) fun token hword => ?_
    · refine Mirrors.pre (I := Softer source m) ?_ fun _ _ hs => hs.1.1
      cases identifier? token with
      | none => exact .done
      | some segment => exact .advance_bind (.advance_bind .done)
    · rw [identifier?_of_word hword]
      refine .of_leads (D := Halted) (fun s => .refl s) (.pure fun _ hs => hs) fun s u hs => ?_
      rw [Halted, eq_of_beq (hs.1.2.trans hfound)]
      rfl
  · exact Mirrors.done.pre fun _ _ hs => hs.1

theorem aliasFor (name : String) (span : Span) :
    InStep source m Nowhere (Parser.aliasFor name span) (Parser.aliasFor name span) := by
  unfold Parser.aliasFor
  exact .eats_bind rfl (.expectIdentifier_bind (fun ident => .done) fun s => .refl s) .done

theorem memberAlias : InStep source m Nowhere Parser.memberAlias Parser.memberAlias := by
  unfold Parser.memberAlias
  exact .expectIdentifier_bind (fun ident => aliasFor _ _) fun s => .refl s

theorem memberAliases (parenthesized : Bool) :
    InStep source m Nowhere (Parser.memberAliases parenthesized)
      (Parser.memberAliases parenthesized) := by
  unfold Parser.memberAliases Parser.moreMemberAliases
  refine InStep.loop_all (fun names => ?_) []
  refine .at?_bind rfl (.ite (fun _ => .done) fun _ => ?_) (.ite (fun _ => .done) fun _ => ?_)
  all_goals
    refine memberAlias.bind_all fun name => ?_
    cases name with
    | none => exact .done
    | some name => exact .eats_bind rfl .done .done

theorem importNames : InStep source m Nowhere Parser.importNames Parser.importNames := by
  unfold Parser.importNames
  refine .eat_bind rfl (fun star => .done) ?_
  have hnames : ∀ parenthesized, InStep source m Nowhere
      (Parser.memberAliases parenthesized >>= fun names => do
        if parenthesized then
          let token ← peek
          if !(← eats (.operator .rParen)) then expected (.closing .rParen) token
        pure (ImportNames.names names))
      (Parser.memberAliases parenthesized >>= fun names => do
        if parenthesized then
          let token ← peek
          if !(← eats (.operator .rParen)) then expected (.closing .rParen) token
        pure (ImportNames.names names)) := by
    intro parenthesized
    refine (memberAliases parenthesized).bind_all fun names => .ite (fun _ => ?_) fun _ => .done
    refine .peek_any fun token => .eats_bind rfl .done ?_
    exact .expected_bind fun s => .refl s
  exact .eats_bind rfl (hnames true) (hnames false)

theorem importLevel : InStep source m Nowhere Parser.importLevel Parser.importLevel := by
  unfold Parser.importLevel Parser.morePoints
  refine InStep.loop_all (fun level => .kind_cases (fun kind _ => ?_) fun kind hword => ?_) 0
  · split
    · exact .advance_bind .done
    · exact .advance_bind .done
    · exact .done
  · rcases hword with rfl | rfl
    · exact .done
    · exact .done

end InStep

namespace Mirrors

/-- A dotted name that stops somewhere has begun. -/
theorem dottedName :
    Mirrors (fun name s => name ≠ none ∧ Halted s) (Softer source m) (Agree source m)
      Parser.dottedName Parser.dottedName := by
  unfold Parser.dottedName
  refine .expectIdentifier_bind (fun first => .map ?_) fun s => .refl s
  exact (InStep.moreSegments first.name first.span).weaken (fun _ _ hs => hs)
    (fun name _ hs => ⟨Option.some_ne_none name, hs⟩) fun _ _ _ _ hs => .inr hs

theorem moduleAlias :
    Mirrors (fun name s => name ≠ none ∧ Halted s) (Softer source m) (Agree source m)
      Parser.moduleAlias Parser.moduleAlias := by
  unfold Parser.moduleAlias
  refine dottedName.bind_agree (fun name => ?_) fun name s ⟨hsome, hs⟩ => ?_
  · cases name with
    | none => exact .done
    | some name => exact (InStep.aliasFor name.1 name.2).anyway
  · obtain ⟨⟨name, span⟩, rfl⟩ := Option.ne_none_iff_exists'.1 hsome
    have hstop : Leads Halted (fun name s => name ≠ none ∧ Halted s) (Parser.aliasFor name span) :=
      .eats_bind (fun s hs => hs.ne rfl) (.pure fun _ hs => ⟨Option.some_ne_none _, hs⟩)
    exact hstop s hs

end Mirrors

namespace InStep

theorem moduleAliases : InStep source m Halted Parser.moduleAliases Parser.moduleAliases := by
  unfold Parser.moduleAliases Parser.moreModuleAliases
  refine InStep.loop_ended (fun names => ?_) []
  refine Mirrors.moduleAlias.bind_agree (fun name => ?_) fun name s ⟨hsome, hs⟩ => ?_
  · cases name with
    | none => exact .done
    | some name => exact .eats_bind rfl .done .done
  -- In front of a point or a word there is no comma, so this name is the last one.
  · obtain ⟨name, rfl⟩ := Option.ne_none_iff_exists'.1 hsome
    have hstop : Leads Halted (Ended Halted) (do
        if ← eats (.operator .comma) then pure (LoopStep.again (names ++ [name]))
        else pure (.finished (names ++ [name]))) :=
      .eats_bind (fun s hs => hs.ne rfl) (.pure fun _ hs => hs)
    exact hstop s hs

theorem importStatement : InStep source m Halted Parser.importStatement Parser.importStatement := by
  unfold Parser.importStatement
  refine .next_bind fun word => moduleAliases.bind (fun names => ?_) fun names => ?_
  · exact .spanFrom_bind word.span fun _ => .done
  · exact .spanFrom_bind fun _ => .pure fun _ hs => hs

theorem importFromModule (start : Span) (module : Option String) (level : Nat) :
    InStep source m Nowhere (Parser.importFromModule start module level)
      (Parser.importFromModule start module level) := by
  unfold Parser.importFromModule
  refine .peek_any fun token => .eats_bind rfl ?_ ?_
  · exact importNames.bind_all fun names => .spanFrom_bind start fun _ => .done
  · exact .expected_bind (Heeds.abandonOperands start).onward

end InStep

/-- Behind the module of a from-import the word `import` is missed where a word stops it. -/
theorem Leads.importFromModule (start : Span) (module : Option String) (level : Nat) :
    Leads Halted (fun _ => Nowhere) (Parser.importFromModule start module level) := by
  unfold Parser.importFromModule
  refine .look_any fun token => .eats_bind (fun s hs => hs.ne rfl) ?_
  exact .expected_bind (Heeds.abandonOperands start).onward

theorem InStep.importFromStatement :
    InStep source m Nowhere Parser.importFromStatement Parser.importFromStatement := by
  unfold Parser.importFromStatement
  refine .next_bind fun word => importLevel.bind_all fun level => ?_
  refine .at?_bind rfl (.ite (fun _ => importFromModule _ _ _) fun _ => ?_)
    (.ite (fun _ => importFromModule _ _ _) fun _ => ?_)
  -- A dotted name is read in both cases.
  all_goals
    refine Mirrors.dottedName.bind_agree (fun name => ?_) fun name s hs => ?_
    · cases name with
      | none => exact abandonOperands word.span
      | some name => exact importFromModule _ _ _
    · obtain ⟨⟨name, span⟩, rfl⟩ := Option.ne_none_iff_exists'.1 hs.1
      exact Leads.importFromModule _ _ _ s hs.2

/-! ### Small statements -/

/-- Among the statements there is an annotated assignment, which the version lacks. -/
def Beyond (v : Version) (leaves : List Stmt) : Prop :=
  Feature.variableAnnotations.supportedBy v = false
    ∧ ∃ target hint value span, Stmt.annAssign target hint value span ∈ leaves

theorem Beyond.mono {leaves leaves' : List Stmt} (h : Beyond v leaves) (hsub : leaves ⊆ leaves') :
    Beyond v leaves' := by
  obtain ⟨hlacks, target, hint, value, span, hmem⟩ := h
  exact ⟨hlacks, target, hint, value, span, hsub hmem⟩

theorem Parser.requireFeature_of_supportedBy {feature : Feature} (h : feature.supportedBy v = true)
    (span : Span) : requireFeature v feature span = pure () := by
  rw [requireFeature, h]
  rfl

namespace InStep

theorem assignedValues (hv : v.hasSoftAsync = true) (first : Expr) :
    InStep source m AtAsync (Parser.assignedValues .v37 first) (Parser.assignedValues v first) := by
  unfold Parser.assignedValues
  have hdone : ∀ before : List Expr × Expr,
      Leads AtAsync (fun _ => AtAsync) (Parser.targetStep .v37 before) :=
    fun _ => .eats_bind (fun s hs => hs.ne rfl) (.pure fun _ hs => hs)
  have hstep : ∀ before : List Expr × Expr,
      InStep source m AtAsync (Parser.targetStep .v37 before) (Parser.targetStep v before) := by
    refine fun (targets, value) => .eats_bind rfl ?_ .done
    exact (starExpressions hv).bind (fun next => .done) fun next => .pure fun _ hs => hs
  refine (starExpressions hv).bind (fun value => InStep.loop hstep hdone _) fun value => ?_
  exact Leads.loop (X := fun _ => AtAsync) (fun a => (hstep a).onward) hdone (fun _ _ hs => hs) _

/-- The rest of a statement that begins with a target and a colon, where annotations are known. -/
theorem annotatedRest (hv : v.hasSoftAsync = true)
    (hknown : Feature.variableAnnotations.supportedBy v = true) (start : Span) (target : Expr)
    (token : Token) :
    InStep source m AtAsync
      (do
        advance
        requireFeature .v37 .variableAnnotations token.span
        let hint ← Parser.expression .v37
        let value ← if ← eats .equal then some <$> Parser.starExpressions .v37 else pure none
        pure (Stmt.annAssign target hint value (← spanFrom start)))
      (do
        advance
        requireFeature v .variableAnnotations token.span
        let hint ← Parser.expression v
        let value ← if ← eats .equal then some <$> Parser.starExpressions v else pure none
        pure (Stmt.annAssign target hint value (← spanFrom start))) := by
  rw [requireFeature_of_supportedBy rfl, requireFeature_of_supportedBy hknown]
  refine .advance_bind ?_
  rw [pure_bind, pure_bind]
  have hend : ∀ (hint : Expr) (value : Option Expr), InStep source m AtAsync
      (spanFrom start >>= fun span => pure (Stmt.annAssign target hint value span))
      (spanFrom start >>= fun span => pure (Stmt.annAssign target hint value span)) :=
    fun _ _ => .spanFrom_bind start fun _ => .done
  have hstop : ∀ (hint : Expr) (value : Option Expr), Leads AtAsync (fun _ => AtAsync)
      (spanFrom start >>= fun span => pure (Stmt.annAssign target hint value span)) :=
    fun _ _ => .spanFrom_bind fun _ => .pure fun _ hs => hs
  refine (expression hv).bind (fun hint => .eats_bind rfl ?_ (hend hint none)) fun hint => ?_
  · exact ((starExpressions hv).map some).bind (hend hint) (hstop hint)
  · exact .eats_bind (fun s hs => hs.ne rfl) (hstop hint none)

end InStep

namespace Mirrors

/-- An expression, an assignment or something like that. Where the version lacks annotations the
    other one may have found one. -/
theorem expressionStatement (hv : v.hasSoftAsync = true) :
    Mirrors (fun stmt s => Beyond v stmt.leaves ∨ Halted s) (Softer source m) (Agree source m)
      (Parser.expressionStatement .v37) (Parser.expressionStatement v) := by
  unfold Parser.expressionStatement
  have hstops : ∀ {q p : Parser Stmt}, InStep source m AtAsync q p →
      Mirrors (fun stmt s => Beyond v stmt.leaves ∨ Halted s) (Softer source m) (Agree source m)
        q p :=
    fun h => h.halts.weaken (fun _ _ hs => hs) (fun _ _ hs => .inr hs) fun _ _ _ _ hs => .inr hs
  refine .peek_any fun start => (InStep.starExpressions hv).bind (fun first => ?_) fun first => ?_
  · refine .peek_cases (fun token _ => ?_) fun token hword => ?_
    · split
      · refine hstops (.advance_bind ((InStep.assignedValues hv first).bind (fun values => ?_) ?_))
        · exact .spanFrom_bind start.span fun _ => .done
        · exact fun values => .spanFrom_bind fun _ => .pure fun _ hs => hs
      · refine .ite (fun _ => ?_) fun _ => .ite (fun _ => ?_) fun _ => .done
        · cases hknown : Feature.variableAnnotations.supportedBy v with
          | true => exact hstops (InStep.annotatedRest hv hknown start.span first token)
          | false =>
            -- Whatever comes behind the colon, the result is the statement that is lacked.
            have hrest : InStep source m AtAsync _ _ :=
              InStep.annotatedRest (v := .v36) rfl rfl start.span first token
            have hresult : ∀ hint value span s,
                Beyond v (Stmt.annAssign first hint value span).leaves ∨ Halted s :=
              fun _ _ _ _ => .inl ⟨hknown, _, _, _, _, List.mem_singleton.2 rfl⟩
            refine .of_leads (D := fun _ => True) hrest.onward (Gives.leads ?_) fun _ _ _ => trivial
            refine .bind fun _ => .bind fun _ => .bind fun hint => .bind fun found => ?_
            refine .ite (.bind fun value => ?_) (.bind fun value => ?_)
            · exact .bind fun span => .pure (hresult _ _ _)
            · exact .bind fun span => .pure (hresult _ _ _)
        · refine hstops (.advance_bind ((InStep.starExpressions hv).bind (fun value => ?_) ?_))
          · exact .spanFrom_bind start.span fun _ => .done
          · exact fun values => .spanFrom_bind fun _ => .pure fun _ hs => hs
      · exact .done
    · rcases hword with hk | hk
      all_goals
        simp only [Token.soften_kind, hk, TokenKind.soften]
        exact .done
  · refine .peek_bind (P := (· = .keyword .async)) (fun _ hs => hs) fun token hk => ?_
    simp only [hk]
    exact .pure fun _ hs => .inr hs.halted

theorem smallStatement (hv : v.hasSoftAsync = true) :
    Mirrors (fun stmt s => Beyond v stmt.leaves ∨ Halted s) (Softer source m) (Agree source m)
      (Parser.smallStatement .v37) (Parser.smallStatement v) := by
  unfold Parser.smallStatement
  have hexpression : Mirrors _ (Softer source m) _ _ _ := expressionStatement hv
  have himport : Mirrors (fun stmt s => Beyond v stmt.leaves ∨ Halted s) (Softer source m)
      (Agree source m) Parser.importStatement Parser.importStatement :=
    InStep.importStatement.weaken (fun _ _ hs => hs) (fun _ _ hs => .inr hs)
      fun _ _ _ _ hs => .inr hs
  refine .peek_cases (fun token _ => ?_) fun token hword => ?_
  · split
    · exact himport
    · exact InStep.importFromStatement.anyway
    · split
      · exact .advance_bind (InStep.skipOperands.bind_all fun _ =>
          .spanFrom_bind token.span fun _ => .done)
      · exact hexpression
    · exact hexpression
  · rcases hword with hk | hk
    all_goals
      simp only [Token.soften_kind, hk, TokenKind.soften]
      exact hexpression

end Mirrors

section End

variable (stmts : List Stmt)

/-- The end of a small statement is missed where a word stops it. -/
theorem Leads.smallStatementEnd :
    Leads Halted (fun _ => Nowhere) (Parser.smallStatementEnd stmts) := by
  unfold Parser.smallStatementEnd
  refine .peek_bind (P := (·.isHalt = true)) (fun _ hs => hs) fun token hhalt => ?_
  split
  all_goals first
    | (rename_i hk; rw [hk] at hhalt; cases hhalt)
    | exact .expected_bind Onward.skipLine

theorem InStep.smallStatementEnd :
    InStep source m Nowhere (Parser.smallStatementEnd stmts) (Parser.smallStatementEnd stmts) := by
  unfold Parser.smallStatementEnd
  refine .peek_cases (fun token _ => ?_) fun token hword => ?_
  · split
    · refine .advance_bind (.kind_cases (fun kind _ => ?_) fun kind hword => ?_)
      · exact .ite (fun _ => .skipNewlines_bind .done) fun _ => .done
      · rcases hword with rfl | rfl
        · exact .done
        · exact .done
    · exact .advance_bind .done
    · exact .done
    · exact .done
    · exact .expected_bind Onward.skipLine
  · rcases hword with hk | hk
    all_goals
      simp only [hk]
      exact .expected_bind Onward.skipLine

/-- What follows a small statement changes nothing about the statements before. -/
theorem Gives.smallStatementEnd :
    Gives (fun r => r = .again stmts ∨ r = .finished stmts) (Parser.smallStatementEnd stmts) := by
  unfold Parser.smallStatementEnd
  refine .bind fun token => ?_
  split
  · exact .bind fun _ => .bind fun _ => .ite (.bind fun _ => .pure (.inr rfl)) (.pure (.inl rfl))
  · exact .bind fun _ => .pure (.inr rfl)
  · exact .pure (.inr rfl)
  · exact .pure (.inr rfl)
  · exact .bind fun _ => .bind fun _ => .pure (.inr rfl)

end End

/-! ### Statements after others -/

/-- The productions go on together, unless the first one reads an annotated assignment, which the
    version lacks. -/
abbrev Together (source : String) (m : Nat) (v : Version) {α : Type} (leaves : α → List Stmt)
    (q p : Parser α) : Prop :=
  Mirrors (fun a _ => Beyond v (leaves a)) (Softer source m) (Agree source m) q p

/-- The statements without a body in what a step has collected. -/
def Parser.LoopStep.leaves {α : Type} (leaves : List α → List Stmt) :
    LoopStep (List α) (List α) → List Stmt
  | .again items => leaves items
  | .finished items => leaves items

/-- What a step does to the items collected before: more of them may follow. -/
def Parser.LoopStep.Extends {α : Type} (items : List α) (r : LoopStep (List α) (List α)) : Prop :=
  ∃ more, r = .again (items ++ more) ∨ r = .finished (items ++ more)

theorem Parser.LoopStep.Extends.beyond {α : Type} {leaves : List α → List Stmt} {items : List α}
    (hleaves : ∀ items more, leaves (items ++ more) = leaves items ++ leaves more)
    {r : LoopStep (List α) (List α)} (h : r.Extends items) (hbeyond : Beyond v (leaves items)) :
    Beyond v (r.leaves leaves) := by
  obtain ⟨more, rfl | rfl⟩ := h
  all_goals
    refine hbeyond.mono ?_
    rw [LoopStep.leaves, hleaves]
    exact List.subset_append_left _ _

/-- What has been collected stays in the result. -/
theorem Leads.collect {α : Type} {leaves : List α → List Stmt}
    (hleaves : ∀ items more, leaves (items ++ more) = leaves items ++ leaves more)
    {step : List α → Parser (LoopStep (List α) (List α))}
    (honward : ∀ items s, Onward s (step items s).2)
    (hextends : ∀ items, Gives (LoopStep.Extends items) (step items)) (items : List α) :
    Leads (fun _ => Beyond v (leaves items)) (fun items _ => Beyond v (leaves items))
      (Parser.loop id step items) :=
  Leads.loop (X := fun r _ => Beyond v (r.leaves leaves)) honward
    (fun items s hbeyond _ => (hextends items s).beyond hleaves hbeyond)
    (fun _ _ hbeyond => hbeyond) items

/-- The rule for loops that collect statements. -/
theorem Together.collect {α : Type} {leaves : List α → List Stmt}
    (hleaves : ∀ items more, leaves (items ++ more) = leaves items ++ leaves more)
    {step step' : List α → Parser (LoopStep (List α) (List α))}
    (hstep : ∀ items, Together source m v (LoopStep.leaves leaves) (step items) (step' items))
    (hextends : ∀ items, Gives (LoopStep.Extends items) (step items)) (items : List α) :
    Together source m v leaves (loop id step items) (loop id step' items) :=
  Mirrors.loop (X := fun r _ => Beyond v (r.leaves leaves)) hstep
    (fun items s hbeyond _ => (hextends items s).beyond hleaves hbeyond)
    (fun _ _ hbeyond => hbeyond) items

theorem Beyond.append {leaves : List Stmt} {stmts : List Stmt} {more : List Stmt}
    (h : Beyond v leaves) (hmore : leaves ⊆ bodyLeaves more) :
    Beyond v (bodyLeaves (stmts ++ more)) := by
  refine h.mono fun stmt hstmt => ?_
  rw [bodyLeaves_append]
  exact List.mem_append_right _ (hmore hstmt)

theorem Together.smallStatements (hv : v.hasSoftAsync = true) :
    Together source m v bodyLeaves (Parser.smallStatements .v37) (Parser.smallStatements v) := by
  unfold Parser.smallStatements
  refine Together.collect bodyLeaves_append (fun stmts => ?_) (fun stmts => ?_) []
  · refine (Mirrors.smallStatement hv).bind_agree (fun stmt => ?_) fun stmt => ?_
    · exact (InStep.smallStatementEnd _).anyway
    -- What is lacked has been read, or a word stops the statement and its end is missed.
    · refine .either (fun s hbeyond _ => ?_) (Leads.smallStatementEnd _).anyway
      have hstmts : Beyond v (bodyLeaves (stmts ++ [stmt])) :=
        hbeyond.append (by simp [bodyLeaves])
      rcases Gives.smallStatementEnd (stmts ++ [stmt]) s with hr | hr <;> rw [hr]
      · exact hstmts
      · exact hstmts
  · refine .bind fun stmt s => ⟨[stmt], Gives.smallStatementEnd _ s⟩

end PyAtlas
