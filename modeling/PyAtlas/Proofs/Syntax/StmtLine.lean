import PyAtlas.Proofs.Syntax.ExprLine
import PyAtlas.Syntax.ParseStmt

/-!
# Small statements and headers stay on their line

The productions for statements that read no body: headers and what is passed over in them,
imports, small statements, parameters. Like expressions they read no layout, so a line ends
where its newline stands, and not earlier or later.

## Key results
- `Stays.smallStatement`: a small statement, whatever is wrong with it.
- `Stays.skipHeader`, `Stays.expectColon`, `Stays.parameterList`, `Stays.classArguments`: what
  stands before a body.
-/

namespace PyAtlas

namespace Stays

open PyAtlas.Parser

variable {I : ParserState → Prop}

/-! ### Passing over what is not kept -/

theorem skipHeader : Stays I Parser.skipHeader := by
  unfold Parser.skipHeader Parser.restOfHeader
  refine loop (fun (depth, lambdas) => ?_) (0, 0)
  refine peek_bind fun token => ?_
  split
  · exact expected.bind fun _ => .pure
  · exact expected.bind fun _ => .pure
  · rename_i op hkind
    refine (advance_peeked (by rw [hkind]; rfl)).bind fun _ => .ite (fun _ => ?_) fun _ => .pure
    exact .ite (fun _ => .pure) fun _ => .pure
  · rename_i hkind
    exact (advance_peeked (by rw [hkind]; rfl)).bind fun _ => .pure
  · rename_i cause hkind
    exact report_bind ((advance_peeked (by rw [hkind]; rfl)).bind fun _ => .pure)
  · rename_i hnewline _ _ _ _
    exact (advance_inner hnewline).bind fun _ => .pure

theorem expectColon : Stays I Parser.expectColon := by
  unfold Parser.expectColon
  refine peek_bind fun token => (eats rfl).bind fun _ => .ite (fun _ => .pure) fun _ => ?_
  exact expected.bind fun _ => .ite (fun _ => skipHeader) fun _ => .pure

theorem skipOperands : Stays I Parser.skipOperands := by
  unfold Parser.skipOperands
  refine loop (fun depth => ?_) 0
  refine peek_bind fun token => ?_
  split
  · exact .pure
  · exact .pure
  · rename_i op hkind
    refine .ite (fun _ => .pure) fun _ => ?_
    exact (advance_peeked (by rw [hkind]; rfl)).bind fun _ => .pure
  · rename_i cause hkind
    exact report_bind ((advance_peeked (by rw [hkind]; rfl)).bind fun _ => .pure)
  · rename_i hnewline _ _ _
    exact (advance_inner hnewline).bind fun _ => .pure

/-! ### Imports -/

theorem moreSegments (name : String) (span : Span) : Stays I (Parser.moreSegments name span) := by
  unfold Parser.moreSegments
  refine loop (fun (name, span) => ?_) (name, span)
  refine look_bind fun dotted => .ite (fun hdotted => ?_) fun _ => .pure
  refine look_bind fun second => ?_
  split
  · rename_i segment hsegment
    intro s hs hi
    have hdot : s.cursor.kind = .operator .dot := eq_of_beq (hi.1.2.trans hdotted)
    have hfirst := Along.advance (s := s) (by rw [hdot]; rfl)
    have hsecond := Along.advance (s := s.move Cursor.advance) (by
      rw [Cursor.kind_eq, Cursor.peek_advance, hi.2]
      exact isLayout_of_identifier? hsegment)
    exact hfirst.trans hsecond
  · exact .pure

theorem dottedName : Stays I Parser.dottedName := by
  unfold Parser.dottedName
  refine expectIdentifier.bind fun first => ?_
  cases first with
  | none => exact .pure
  | some first => exact (moreSegments first.name first.span).map

theorem aliasFor (name : String) (span : Span) : Stays I (Parser.aliasFor name span) := by
  unfold Parser.aliasFor
  refine (eats rfl).bind fun _ => .ite (fun _ => ?_) fun _ => .pure
  refine expectIdentifier.bind fun ident => ?_
  cases ident with
  | none => exact .pure
  | some ident => exact .pure

theorem moduleAlias : Stays I Parser.moduleAlias := by
  unfold Parser.moduleAlias
  refine dottedName.bind fun name => ?_
  cases name with
  | none => exact .pure
  | some name => exact aliasFor name.1 name.2

theorem memberAlias : Stays I Parser.memberAlias := by
  unfold Parser.memberAlias
  refine expectIdentifier.bind fun ident => ?_
  cases ident with
  | none => exact .pure
  | some ident => exact aliasFor ident.name ident.span

theorem moduleAliases : Stays I Parser.moduleAliases := by
  unfold Parser.moduleAliases Parser.moreModuleAliases
  refine loop (fun names => ?_) []
  refine moduleAlias.bind fun name => ?_
  cases name with
  | none => exact .pure
  | some name => exact (eats rfl).bind fun _ => .ite (fun _ => .pure) fun _ => .pure

theorem memberAliases (parenthesized : Bool) : Stays I (Parser.memberAliases parenthesized) := by
  unfold Parser.memberAliases Parser.moreMemberAliases
  refine loop (fun names => ?_) []
  refine look_bind_any fun _ => .ite (fun _ => .pure) fun _ => ?_
  refine memberAlias.bind fun name => ?_
  cases name with
  | none => exact .pure
  | some name => exact (eats rfl).bind fun _ => .ite (fun _ => .pure) fun _ => .pure

theorem importStatement (hI : ∀ s, I s → s.cursor.kind.isLayout = false) :
    Stays I Parser.importStatement := by
  unfold Parser.importStatement
  exact (next hI).bind fun word => moduleAliases.bind fun _ => spanFrom_bind fun _ => .pure

theorem importLevel : Stays I Parser.importLevel := by
  unfold Parser.importLevel Parser.morePoints
  refine loop (fun level => ?_) 0
  refine look_bind fun next => ?_
  split
  · exact (advance fun s hs => by rw [hs.2]; rfl).bind fun _ => .pure
  · exact (advance fun s hs => by rw [hs.2]; rfl).bind fun _ => .pure
  · exact .pure

theorem importNames : Stays I Parser.importNames := by
  unfold Parser.importNames
  refine (eat rfl).bind fun star => ?_
  cases star with
  | some star => exact .pure
  | none =>
    refine (eats rfl).bind fun parenthesized => (memberAliases parenthesized).bind fun names => ?_
    refine .ite (fun _ => ?_) fun _ => .pure
    refine peek_bind fun token => (eats rfl).bind fun _ => .ite (fun _ => ?_) fun _ => .pure
    exact expected.bind fun _ => .pure

theorem abandonOperands (start : Span) : Stays I (Parser.abandonOperands start) := by
  unfold Parser.abandonOperands
  exact skipOperands.bind fun _ => spanFrom_bind fun _ => .pure

theorem importFromModule (start : Span) (module : Option String) (level : Nat) :
    Stays I (Parser.importFromModule start module level) := by
  unfold Parser.importFromModule
  refine peek_bind fun token => (eats rfl).bind fun _ => .ite (fun _ => ?_) fun _ => ?_
  · exact importNames.bind fun _ => spanFrom_bind fun _ => .pure
  · exact expected.bind fun _ => abandonOperands start

theorem importFromStatement (hI : ∀ s, I s → s.cursor.kind.isLayout = false) :
    Stays I Parser.importFromStatement := by
  unfold Parser.importFromStatement
  refine (next hI).bind fun word => importLevel.bind fun level => look_bind_any fun _ => ?_
  refine .ite (fun _ => importFromModule _ _ _) fun _ => ?_
  refine dottedName.bind fun name => ?_
  cases name with
  | some name => exact importFromModule _ _ _
  | none => exact abandonOperands _

/-! ### Small statements -/

theorem requireFeature (v : Version) (feature : Feature) (span : Span) :
    Stays I (Parser.requireFeature v feature span) := by
  unfold Parser.requireFeature
  exact .ite (fun _ => report) fun _ => .pure

theorem assignedValues (v : Version) (first : Expr) :
    Stays I (Parser.assignedValues v first) := by
  unfold Parser.assignedValues
  refine (starExpressions v).bind fun value => loop (fun (targets, value) => ?_) _
  refine (eats rfl).bind fun _ => .ite (fun _ => ?_) fun _ => .pure
  exact (starExpressions v).bind fun _ => .pure

theorem expressionStatement (v : Version) : Stays I (Parser.expressionStatement v) := by
  unfold Parser.expressionStatement
  refine peek_bind fun start => (starExpressions v).bind fun first => peek_bind fun token => ?_
  split
  · rename_i hkind
    refine (advance_peeked (by rw [hkind]; rfl)).bind fun _ => ?_
    exact (assignedValues v first).bind fun _ => spanFrom_bind fun _ => .pure
  · rename_i op hkind
    have hplain : token.kind.isLayout = false := by rw [hkind]; rfl
    refine .ite (fun _ => ?_) fun _ => .ite (fun _ => ?_) fun _ => .pure
    · refine (advance_peeked hplain).bind fun _ => (requireFeature v _ _).bind fun _ => ?_
      refine (expression v).bind fun hint => (eats rfl).bind fun _ => .ite (fun _ => ?_) fun _ => ?_
      · exact (starExpressions v).map.bind fun _ => spanFrom_bind fun _ => .pure
      · exact Stays.pure.bind fun _ => spanFrom_bind fun _ => .pure
    · refine (advance_peeked hplain).bind fun _ => (starExpressions v).bind fun _ => ?_
      exact spanFrom_bind fun _ => .pure
  · exact .pure

/-- A small statement does not read the newline behind it. -/
theorem smallStatement (v : Version) : Stays I (Parser.smallStatement v) := by
  unfold Parser.smallStatement
  refine peek_bind fun token => ?_
  have hpeeked : token.kind.isLayout = false →
      ∀ s : ParserState, s.cursor.peek = token → s.cursor.kind.isLayout = false :=
    fun hplain s hs => by rw [Cursor.kind_eq, hs, hplain]
  split
  · rename_i hkind
    exact importStatement (hpeeked (by rw [hkind]; rfl))
  · rename_i hkind
    exact importFromStatement (hpeeked (by rw [hkind]; rfl))
  · rename_i word _ _ hkind
    split
    · refine (advance_peeked (by rw [hkind]; rfl)).bind fun _ => skipOperands.bind fun _ => ?_
      exact spanFrom_bind fun _ => .pure
    · exact expressionStatement v
  · exact expressionStatement v

/-! ### Definitions -/

theorem expressionAfter (v : Version) {mark : TokenKind} (hmark : mark.isLayout = false) :
    Stays I (Parser.expressionAfter v mark) := by
  unfold Parser.expressionAfter
  exact (eats hmark).bind fun _ => .ite (fun _ => (expression v).map) fun _ => .pure

theorem parameterHint (v : Version) : Stays I (Parser.parameterHint v) := by
  unfold Parser.parameterHint
  refine (eat rfl).bind fun colon => ?_
  cases colon with
  | some colon => exact (requireFeature v _ _).bind fun _ => (expression v).map
  | none => exact .pure

theorem parameter (v : Version) (kind : ParameterKind) : Stays I (Parser.parameter v kind) := by
  unfold Parser.parameter
  refine expectIdentifier.bind fun name => ?_
  cases name with
  | none => exact .pure
  | some name =>
    exact (parameterHint v).bind fun _ => (expressionAfter v rfl).bind fun _ => .pure

theorem sublistParameter (v : Version) (hI : ∀ s, I s → s.cursor.kind.isLayout = false) :
    Stays I (Parser.sublistParameter v) := by
  unfold Parser.sublistParameter
  refine (advance hI).bind fun _ => skipToClosing.bind fun _ => (eat rfl).discard.bind fun _ => ?_
  exact (eats rfl).bind fun _ => .ite (fun _ => (expression v).discard) fun _ => .pure

theorem parameters (v : Version) : Stays I (Parser.parameters v) := by
  unfold Parser.parameters Parser.moreParameters
  refine loop (fun (params, keywordOnly) => ?_) ([], false)
  refine peek_bind fun token => ?_
  split
  · rename_i hkind
    exact (advance_peeked (by rw [hkind]; rfl)).bind fun _ => .pure
  · rename_i hkind
    exact (advance_peeked (by rw [hkind]; rfl)).bind fun _ => .pure
  · rename_i hkind
    refine (advance_peeked (by rw [hkind]; rfl)).bind fun _ => ?_
    exact (requireFeature v _ _).bind fun _ => .pure
  · rename_i hkind
    refine (advance_peeked (by rw [hkind]; rfl)).bind fun _ => peek_bind fun _ => ?_
    exact .ite (fun _ => (parameter v _).bind fun _ => .pure) fun _ => .pure
  · rename_i hkind
    refine (advance_peeked (by rw [hkind]; rfl)).bind fun _ => ?_
    exact (parameter v _).bind fun _ => .pure
  · rename_i hkind
    refine (sublistParameter v fun s hs => ?_).bind fun _ => .pure
    rw [Cursor.kind_eq, hs, hkind]
    rfl
  · refine .ite (fun _ => (parameter v _).bind fun _ => .pure) fun _ => ?_
    refine expected.bind fun _ => skipToClosing.bind fun _ => ?_
    exact (eat rfl).discard.bind fun _ => .pure

theorem parameterList (v : Version) : Stays I (Parser.parameterList v) := by
  unfold Parser.parameterList
  refine peek_bind fun token => (eats rfl).bind fun _ => .ite (fun _ => parameters v) fun _ => ?_
  exact expected.bind fun _ => .pure

theorem classArguments (v : Version) : Stays I (Parser.classArguments v) := by
  unfold Parser.classArguments
  refine (eats rfl).bind fun _ => .ite (fun _ => ?_) fun _ => .pure
  exact callArguments v fun _ => parseExpr v _

end Stays

end PyAtlas
