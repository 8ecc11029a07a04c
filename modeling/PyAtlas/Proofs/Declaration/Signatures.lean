import PyAtlas.Proofs.Declaration.SignatureWords
import PyAtlas.Proofs.Syntax.SketchHeaders

/-!
# Signatures that are printed and read

A signature is printed so that it can stand behind the name of a function. Read there, it is the
same signature: the parser takes the printed words parameter by parameter and mark by mark, and
what it has taken is at each point what `SignatureItem.read` makes of the items so far. Defaults
are lost on the way but for the fact that there are some.

## Key results
- `takes_parameterStep`: what the parser makes of one parameter or mark.
- `takes_parameterList_items`: the parameters between their parentheses.
- `Signature.Printable.parse_render`: a printed signature is read as what was printed.
-/

namespace PyAtlas

open PyAtlas.Parser

variable {v : Version} {rest after : List Word}

/-! ### Reading the words -/

section Reading

variable {p : ParameterShape}

theorem takes_default (hrest : EndsParameter rest) (hasDefault : Bool) :
    Takes (defaultWords hasDefault ++ rest) rest (expressionAfter v .equal)
      fun e => e.isSome = hasDefault := by
  cases hasDefault with
  | false => exact Takes.eats_false hrest.ne_equal (.pure rfl)
  | true =>
    have hvalue : Takes (.ellipsis :: rest) rest (expression v)
        fun e => e.unplaced = Word.ellipsis.literal :=
      takes_expression_of_operand (takes_literal rfl hrest.endsTerm) hrest.endsTerm
    exact Takes.eats_true rfl (Takes.map (hvalue.weaken fun _ _ => rfl))

/-- A parameter whose stars have been read is read with the kind that it is given. -/
theorem takes_parameter_shape (hv : v.atLeast 3 7 = true) (hhint : ∀ hint ∈ p.hint, IsDotted v hint)
    (hrest : EndsParameter rest) (kind : ParameterKind) :
    Takes (.name p.name :: (optionWords .colon (p.hint.map dottedTerm)
        ++ (defaultWords p.hasDefault ++ rest))) rest (parameter v kind)
      fun r => ∃ q, r = some q ∧ ParameterShape.ofParameter q = { p with kind } := by
  have hvalid : ValidOption v (p.hint.map dottedTerm) := by
    intro t ht
    obtain ⟨hint, hhintEq, rfl⟩ := Option.map_eq_some_iff.1 ht
    exact (hhint hint hhintEq).valid hv
  have hbehind : (kindAt (defaultWords p.hasDefault ++ rest) 0).endsTerm = true
      ∧ kindAt (defaultWords p.hasDefault ++ rest) 0 ≠ .operator .colon := by
    cases p.hasDefault with
    | true => exact ⟨rfl, TokenKind.noConfusion⟩
    | false =>
      refine ⟨hrest.endsTerm, fun heq => ?_⟩
      rcases hrest with h | h <;> cases heq.symm.trans h
  refine Takes.expectIdentifier_bind rfl fun ident hident => ?_
  refine (takes_parameterHint hv hvalid hbehind.1 hbehind.2).bind fun hint hhint => ?_
  refine (takes_default hrest p.hasDefault).bind fun default hdefault => .pure ⟨_, rfl, ?_⟩
  rw [ParameterShape.ofParameter, map_hintText hhint, hdefault, hident]
  rfl

/-- What a signature shows of the parameters read so far, and whether a star came. -/
def shown (before : List Parameter × Bool) : List ParameterShape × Bool :=
  (before.1.map ParameterShape.ofParameter, before.2)

theorem shown_beforeSlash (params : List Parameter) :
    (params.map Parser.Parameter.beforeSlash).map ParameterShape.ofParameter
      = (params.map ParameterShape.ofParameter).map SignatureItem.beforeSlash := by
  rw [List.map_map, List.map_map]
  refine List.map_congr_left fun p _ => ?_
  show ParameterShape.ofParameter (Parser.Parameter.beforeSlash p)
    = if p.kind = .positionalOrKeyword then
        { ParameterShape.ofParameter p with kind := .positionalOnly }
      else .ofParameter p
  rw [Parser.Parameter.beforeSlash]
  split <;> rfl

/-- The mark that a parameter of some kind is printed with. -/
def ParameterKind.mark : ParameterKind → ParameterMark
  | .varPositional => .star
  | .varKeyword => .doubleStar
  | _ => .none

theorem ParameterKind.words_mark (kind : ParameterKind) : kind.mark.words = kind.starWords := by
  cases kind <;> rfl

/-- Printing a parameter keeps no more of its kind than its mark does. -/
theorem ParameterKind.kind_mark (keywordOnly : Bool) (kind : ParameterKind) :
    kind.mark.kind keywordOnly = SignatureItem.kindBehind keywordOnly kind := by
  cases kind <;> rfl

theorem ParameterKind.mark_beq_star (kind : ParameterKind) :
    (kind.mark == .star) = (kind == .varPositional) := by
  cases kind <;> rfl

/-- One step of the parser reads one parameter or mark. -/
theorem takes_parameterStep (hv : v.atLeast 3 8 = true) {item : SignatureItem}
    (hitem : item.Printable v) (hrest : EndsParameter rest) (before : List Parameter × Bool) :
    Takes (item.words ++ rest) rest (parameterStep v before)
      fun r => ∃ c, r = .again c ∧ shown c = SignatureItem.read (shown before) item := by
  obtain ⟨params, keywordOnly⟩ := before
  have hv' : v.atLeast 3 7 = true := by
    revert hv
    cases v <;> decide
  cases item with
  | star =>
    refine (takes_parameterStep_bareStar hrest params keywordOnly).weaken ?_
    rintro _ rfl
    exact ⟨_, rfl, rfl⟩
  | slash =>
    have hfeature : Feature.positionalOnlyParameters.supportedBy v = true := by
      revert hv
      cases v <;> decide
    refine Takes.peek_bind fun token htoken => ?_
    have hkind : token.kind = .operator .slash := congrArg Word.kind htoken
    rw [hkind]
    refine Takes.advance_bind ?_
    rw [requireFeature, hfeature]
    refine (Takes.pure (Q := fun _ => True) trivial).bind fun _ _ => .pure ⟨_, rfl, ?_⟩
    rw [shown, shown_beforeSlash]
    rfl
  | parameter p =>
    obtain ⟨hname, hhint⟩ := hitem
    have hwords : (SignatureItem.parameter p).words ++ rest = p.kind.mark.words ++ .name p.name
        :: (optionWords .colon (p.hint.map dottedTerm) ++ (defaultWords p.hasDefault ++ rest)) := by
      rw [ParameterKind.words_mark]
      simp [SignatureItem.words]
    rw [hwords]
    refine takes_parameterStep_marked p.kind.mark
      ((takes_parameter_shape hv' hhint hrest _).bind ?_)
    rintro _ ⟨q, rfl, hq⟩
    refine .pure ⟨_, rfl, ?_⟩
    rw [shown, Option.toList_some, List.map_append, List.map_singleton, hq,
      ParameterKind.kind_mark, ParameterKind.mark_beq_star]
    rfl

/-! ### Whole signatures -/

theorem endsParameter_items (items : List SignatureItem) :
    EndsParameter (behindCommas (items.map SignatureItem.words) ++ .rParen :: rest) := by
  cases items with
  | nil => exact .inr rfl
  | cons _ _ => exact .inl rfl

/-- A parameter or mark has words. -/
theorem SignatureItem.length_words_pos (item : SignatureItem) : 0 < item.words.length := by
  cases item with
  | parameter p =>
    simp only [SignatureItem.words, List.length_append, List.length_cons]
    omega
  | _ => exact Nat.zero_lt_one

/-- Where a parameter or mark begins it is read before all others. -/
theorem takes_moreParameters_item (hv : v.atLeast 3 8 = true) {item : SignatureItem}
    (hitem : item.Printable v) (hrest : EndsParameter rest) {before : List Parameter × Bool}
    {Q : List Parameter → Prop}
    (hnext : ∀ c, shown c = SignatureItem.read (shown before) item →
      Takes rest after (moreParameters v c) Q) :
    Takes (item.words ++ rest) after (moreParameters v before) Q := by
  have hpos := item.length_words_pos
  refine Takes.loop_again (takes_parameterStep hv hitem hrest before) ?_ hnext
  rw [List.length_append]
  omega

/-- Parameters and marks behind a comma each, and the closing parenthesis. -/
theorem takes_moreParameters_items (hv : v.atLeast 3 8 = true) {items : List SignatureItem}
    (hitems : ∀ item ∈ items, item.Printable v) (before : List Parameter × Bool) :
    Takes (behindCommas (items.map SignatureItem.words) ++ .rParen :: rest) rest
      (moreParameters v before)
      fun all => all.map ParameterShape.ofParameter
        = (items.foldl SignatureItem.read (shown before)).1 := by
  induction items generalizing before with
  | nil =>
    refine (takes_moreParameters_end before).weaken ?_
    rintro _ rfl
    rfl
  | cons item items ih =>
    obtain ⟨hitem, hitems⟩ := List.forall_mem_cons.1 hitems
    have hsplit : behindCommas ((item :: items).map SignatureItem.words) ++ .rParen :: rest
        = .comma :: (item.words
          ++ (behindCommas (items.map SignatureItem.words) ++ .rParen :: rest)) := by
      simp [behindCommas]
    rw [hsplit]
    refine takes_moreParameters_comma
      (takes_moreParameters_item hv hitem (endsParameter_items items) fun c hc => ?_)
    exact (ih hitems c).weaken fun all hall => by rw [hall, hc]; rfl

/-- The parentheses of a signature and what stands between them. -/
theorem takes_parameterList_items (hv : v.atLeast 3 8 = true) {items : List SignatureItem}
    (hitems : ∀ item ∈ items, item.Printable v) :
    Takes (.lParen :: (itemListWords items ++ .rParen :: rest)) rest (parameterList v)
      fun all => all.map ParameterShape.ofParameter
        = (items.foldl SignatureItem.read ([], false)).1 := by
  refine Takes.peek_bind fun _ _ => Takes.eats_true rfl ?_
  cases items with
  | nil => exact takes_moreParameters_items hv hitems ([], false)
  | cons item items =>
    obtain ⟨hitem, hitems⟩ := List.forall_mem_cons.1 hitems
    rw [itemListWords, List.map_cons, behindCommas, List.cons_append, List.tail_cons,
      List.append_assoc]
    refine takes_moreParameters_item hv hitem (endsParameter_items items) fun c hc => ?_
    exact (takes_moreParameters_items hv hitems c).weaken fun all hall => by rw [hall, hc]; rfl

end Reading

/-! ### The function around a signature -/

section Definition

variable {s : Signature}

/-- The words of a function with the signature and nothing in its body. -/
def Signature.definitionWords (s : Signature) : List Word :=
  Keyword.define.word :: .name "f" :: (s.words ++ [.colon, Keyword.pass.word])

theorem Signature.Printable.renders_definition (h : s.Printable v) (hv : v.atLeast 3 7 = true) :
    Lexer.Renders v [] s.definitionWords ("def f" ++ s.render ++ ": pass").toList := by
  have hpass : Lexer.Renders v [] [Keyword.pass.word] "pass".toList :=
    .single (standsBefore_keyword rfl rfl (by decide) rfl)
  have hcolon : Lexer.Renders v [] [.colon, Keyword.pass.word]
      (":".toList ++ ' ' :: "pass".toList) :=
    renders_sign (w := .colon) (by decide) rfl hpass.space
  have hsignature : Lexer.Renders v [] (s.words ++ [.colon, Keyword.pass.word])
      (s.render.toList ++ (":".toList ++ ' ' :: "pass".toList)) :=
    .append (h.renders hv rfl) hcolon
  have hopens : Lexer.endsLetters
      (s.render.toList ++ (":".toList ++ ' ' :: "pass".toList) ++ []) = true := by
    rw [s.render_eq, String.toList_append]
    rfl
  have hfree : FreeName v "f" := by
    refine Unreserved.free ⟨by decide, ?_⟩ hv
    cases v <;> decide
  have hname := (hfree.renders hopens).append hsignature
  have hdefine : Lexer.Renders v [] s.definitionWords ("def".toList ++ ' ' :: ("f".toList
      ++ (s.render.toList ++ (":".toList ++ ' ' :: "pass".toList)))) :=
    .word (standsBefore_keyword rfl rfl (by decide) rfl) hname.space
  have htext : ("def f" ++ s.render ++ ": pass").toList = "def".toList ++ ' ' :: ("f".toList
      ++ (s.render.toList ++ (":".toList ++ ' ' :: "pass".toList))) := by
    simp
  rw [htext]
  exact hdefine

/-- The header of a function is read as the signature that was printed in it, and the line ends
    with its body. -/
theorem takes_definition (h : s.Printable v) (hv : v.atLeast 3 8 = true)
    (body : Parser (List Stmt)) :
    Takes (s.definitionWords ++ [⟨.newline, ""⟩, ⟨.eof, ""⟩]) [⟨.eof, ""⟩]
      (functionStatement v body [] none false)
      fun stmt => ∃ header span place, stmt = .functionDef header [.simple .pass place] span
        ∧ header.name.name = "f" ∧ header.decorators = [] ∧ header.isAsync = false
        ∧ header.parameters.map ParameterShape.ofParameter = s.parameters
        ∧ header.returns.map Expr.hintText = s.returns := by
  have hv' : v.atLeast 3 7 = true := by
    revert hv
    cases v <;> decide
  have hreturns : ValidOption v (s.returns.map dottedTerm) := by
    intro t ht
    obtain ⟨text, htext, rfl⟩ := Option.map_eq_some_iff.1 ht
    exact (h.returns text htext).valid hv'
  have hpass : Takes [Keyword.pass.word, ⟨.newline, ""⟩, ⟨.eof, ""⟩] [⟨.eof, ""⟩]
      (block v body) fun stmts => ∃ place, stmts = [.simple .pass place] := by
    have hsmall : Takes [Keyword.pass.word, .newline, .eof] [.eof] (smallStatements v)
        fun stmts => ∃ stmt, stmts = [stmt] ∧ stmt.unplaced = .simple .pass .nowhere :=
      @takes_smallStatements v [.eof] [Keyword.pass.word] _ takes_pass
    refine Takes.kind_bind (hsmall.weaken ?_)
    rintro _ ⟨stmt, rfl, hstmt⟩
    cases stmt with
    | simple kind place =>
      cases hstmt
      exact ⟨place, rfl⟩
    | _ => cases hstmt
  rw [Signature.definitionWords, Signature.words]
  simp only [List.cons_append, List.append_assoc, List.nil_append]
  refine Takes.next_bind fun word _ => Takes.expectIdentifier_bind rfl fun ident hident => ?_
  refine (takes_parameterList_items hv h.items).bind fun params hparams => ?_
  refine (takes_expressionAfter .arrow hreturns rfl fun heq => by cases heq).bind
    fun returns hshown => ?_
  refine takes_expectColon.bind fun _ _ => hpass.bind ?_
  rintro _ ⟨place, rfl⟩
  refine Takes.spanFrom_bind fun span => .pure ⟨_, span, place, rfl, hident, rfl, rfl, ?_, ?_⟩
  · rw [hparams]
    exact read_signatureItems h.inOrder
  · exact map_hintText hshown

/-- A module that holds one function and nothing else. -/
theorem takes_moduleBody_function {words : List Word} {Q : Stmt → Prop} (hne : words ≠ [])
    (h : Takes (Keyword.define.word :: words) [⟨.eof, ""⟩]
      (functionStatement v (indentedBody v) [] none false) Q) :
    Takes (Keyword.define.word :: words) [⟨.eof, ""⟩] (moduleBody v)
      fun stmts => ∃ stmt, stmts = [stmt] ∧ Q stmt := by
  have hitem : Takes (Keyword.define.word :: words) [⟨.eof, ""⟩] (moduleItem v)
      fun stmts => ∃ stmt, stmts = [stmt] ∧ Q stmt := by
    refine Takes.peek_bind fun token htoken => ?_
    have hkind : token.kind = .keyword .define := congrArg Word.kind htoken
    rw [hkind]
    refine Takes.peek_bind fun token htoken => ?_
    have hkind : token.kind = .keyword .define := congrArg Word.kind htoken
    rw [hkind]
    exact Takes.map (h.weaken fun stmt hstmt => ⟨stmt, rfl, hstmt⟩)
  have hless : [(⟨.eof, ""⟩ : Word)].length < (Keyword.define.word :: words).length :=
    Nat.succ_lt_succ (List.length_pos_iff.2 hne)
  refine Takes.loop_again (S := fun stmts => ∃ stmt, stmts = [stmt] ∧ Q stmt) ?_ hless ?_
  · refine Takes.skipNewlines_bind TokenKind.noConfusion (Takes.at?_false TokenKind.noConfusion ?_)
    exact hitem.bind fun more hmore => .pure ⟨more, rfl, hmore⟩
  · rintro _ ⟨stmt, rfl, hstmt⟩
    refine Takes.loop_finished (Takes.skipNewlines_bind TokenKind.noConfusion ?_)
    exact Takes.at?_true rfl (.pure ⟨_, rfl, stmt, rfl, hstmt⟩)

/-- A printed signature is read as what was printed: the function behind whose name it stands has
    the same parameters and returns the same, and nothing is reported. -/
theorem Signature.Printable.parse_render (h : s.Printable v) (hv : v.atLeast 3 8 = true) :
    let outline := Outline.ofTree (SyntaxTree.parse v ("def f" ++ s.render ++ ": pass"))
    ∃ d, outline.declarations = [d] ∧ d.name = "f" ∧ outline.errors = []
      ∧ d.kind = .function ⟨s.parameters, [], false, s.returns, none⟩ := by
  have hv' : v.atLeast 3 7 = true := by
    revert hv
    cases v <;> decide
  have hflush : Lexer.Flush ("def f" ++ s.render ++ ": pass").toList := by
    rw [String.toList_append, String.toList_append]
    exact ⟨'d', _, rfl, by decide⟩
  have hahead : (Parser.start v ("def f" ++ s.render ++ ": pass")).ahead
      = s.definitionWords ++ [⟨.newline, ""⟩, ⟨.eof, ""⟩] :=
    tokenize_renders (List.cons_ne_nil _ _) (h.renders_definition hv') hflush
  obtain ⟨-, herrors, stmt, hbody, header, span, place, rfl, hname, hdecorators, hasync, hparams,
    hreturns⟩ := takes_moduleBody_function (List.cons_ne_nil _ _) (takes_definition h hv _) _ hahead
  have hdeclared :
      (Outline.ofTree (SyntaxTree.parse v ("def f" ++ s.render ++ ": pass"))).declarations
      = [Scopes.declare [] header.name (.function (.ofHeader header [.simple .pass place]))] := by
    show bodyDeclarations [] 0 (moduleBody v (Parser.start v _)).1 = _
    rw [hbody]
    rfl
  refine ⟨_, hdeclared, hname, herrors, ?_⟩
  rw [Scopes.declare, Signature.ofHeader, hparams, hreturns, hdecorators, hasync]
  rfl

/-- All five kinds of parameters, with defaults and annotations. -/
theorem parse_render_all_kinds :
    let s : Signature := ⟨[⟨"a", .positionalOnly, false, none⟩, ⟨"b", .positionalOnly, true, none⟩,
      ⟨"c", .positionalOrKeyword, true, some "d.e"⟩, ⟨"args", .varPositional, false, none⟩,
      ⟨"k", .keywordOnly, false, some "int"⟩, ⟨"kwargs", .varKeyword, false, none⟩],
      [], false, some "t.u.v", none⟩
    s.render = "(a, b=..., /, c: d.e = ..., *args, k: int, **kwargs) -> t.u.v"
      ∧ ∃ d, (Outline.ofTree (SyntaxTree.parse .v38 ("def f" ++ s.render ++ ": pass"))).declarations
        = [d] ∧ d.kind = .function s := by
  intro s
  have hprintable : s.Printable .v38 := by decide +kernel
  obtain ⟨d, hdeclared, -, -, hkind⟩ := hprintable.parse_render rfl
  exact ⟨by decide +kernel, d, hdeclared, hkind⟩

end Definition

end PyAtlas
