import PyAtlas.Proofs.Syntax.Sketch
import PyAtlas.Proofs.Syntax.TermParsing

/-!
# Parsing lines without a body

Assignments of literals, imports and `pass`: each line is read as the statement that it stands
for, and the newline behind it is read as well.

## Key results
- `takes_assign`, `takes_import`, `takes_importFrom`, `takes_pass`: one statement.
- `takes_smallLine`: the line of a statement without a body.
-/

namespace PyAtlas

open PyAtlas.Parser

variable {v : Version} {rest : List Word}

/-! ### Assignments -/

/-- A string literal behind which no other one stands. -/
theorem takes_moreStrings {token : Token} (hrest : ∀ marks, kindAt rest 0 ≠ .string marks) :
    Takes rest rest (moreStrings token)
      fun r => r.1 = ((StringLiteral.decode? token.text).map (·.value)).getD "" := by
  refine Takes.loop_finished (Takes.peekKind_bind fun next hnext => ?_)
  split
  · next marks hmarks => exact absurd (hnext.symm.trans hmarks) (hrest marks)
  · exact .pure ⟨_, rfl, rfl⟩

/-- A literal that ends what it stands in is an operand of its own. -/
theorem takes_literal {w : Word} (h : w.kind.isLiteral = true)
    (hrest : (kindAt rest 0).endsTerm = true) (expr : ExprParser) :
    Takes (w :: rest) rest (operand v expr)
      fun e => e.unplaced = w.literal := by
  obtain ⟨kind, text⟩ := w
  refine takes_operandAfter (fun token hkind => ?_) ?_ fun token htoken => ?_
  · rw [identifier?, hkind]
    cases kind with
    | keyword word => cases word <;> first | rfl | cases h
    | _ => first | rfl | cases h
  · cases kind with
    | operator op => cases op <;> first | rfl | cases h
    | _ => first | rfl | cases h
  · have hkind : token.kind = kind := congrArg Word.kind htoken
    rw [operandAfter, hkind]
    cases kind with
    | string marks =>
      have htext : token.text = text := Token.text_of_word htoken rfl
      have hends : ∀ marks, kindAt rest 0 ≠ .string marks := fun _ => ne_of_endsTerm hrest rfl
      refine (takes_moreStrings hends).bind ?_
      rintro ⟨value, span⟩ hvalue
      refine .pure ?_
      rw [Expr.unplaced, Word.literal]
      dsimp only at hvalue ⊢
      rw [hvalue, htext]
    | number kind => cases kind <;> exact .pure rfl
    | keyword word => cases word <;> first | exact absurd h Bool.false_ne_true | exact .pure rfl
    | operator op => cases op <;> first | exact absurd h Bool.false_ne_true | exact .pure rfl
    | _ => cases h

/-- An operand that nothing continues is a whole expression. -/
theorem takes_expression_of_operand {before : List Word} {tree : Expr}
    (h : ∀ expr, Takes before rest (operand v expr) fun e => e.unplaced = tree)
    (hrest : (kindAt rest 0).endsTerm = true) :
    Takes before rest (Parser.expression v) fun e => e.unplaced = tree := by
  intro s hs
  obtain ⟨expr, -, heq⟩ := exists_inner v Precedence.initial s
  rw [Parser.expression, heq]
  exact (h expr).bind (fun e he => takes_continuations_finished (.of_endsTerm hrest _) he) s hs

/-- An assignment of a literal to a name. -/
theorem takes_assign {target : String} {value : Word} (htarget : FreeName v target)
    (hvalue : value.IsLiteral v) :
    Takes (.name target :: .equals :: value :: .newline :: rest) (.newline :: rest)
      (smallStatement v)
      fun stmt => stmt.unplaced = .assign [.name ⟨target, .nowhere⟩] value.literal .nowhere := by
  have hname : Takes (.name target :: .equals :: value :: .newline :: rest)
      (.equals :: value :: .newline :: rest) (Parser.starExpressions v)
      fun e => e.unplaced = .name ⟨target, .nowhere⟩ :=
    Term.Valid.starExpressions (.name htarget) rfl TokenKind.noConfusion
  -- A literal begins with no star, so that it is no list of expressions.
  have hstar : kindAt (value :: .newline :: rest) 0 ≠ .operator .star := by
    intro heq
    have hliteral := hvalue.literal
    rw [show value.kind = .operator .star from heq] at hliteral
    cases hliteral
  have hliteral : Takes (value :: .newline :: rest) (.newline :: rest)
      (Parser.starExpressions v) fun e => e.unplaced = value.literal :=
    (takes_expression_of_operand (takes_literal hvalue.literal rfl) rfl).starExpressions hstar
      TokenKind.noConfusion
  refine Takes.peek_bind fun token htoken => ?_
  have hkind : token.kind = .identifier := congrArg Word.kind htoken
  rw [hkind]
  refine Takes.peekKind_bind fun start _ => hname.bind fun first hfirst => ?_
  refine Takes.peek_bind fun token htoken => ?_
  have hkind : token.kind = .equal := congrArg Word.kind htoken
  rw [hkind]
  refine Takes.advance_bind ?_
  have hvalues : Takes (value :: .newline :: rest) (.newline :: rest) (assignedValues v first)
      fun r => ∃ e, r = ([first], e) ∧ e.unplaced = value.literal := by
    refine hliteral.bind fun e he => Takes.loop_finished ?_
    exact Takes.eats_false TokenKind.noConfusion (.pure ⟨_, rfl, e, rfl, he⟩)
  refine hvalues.bind ?_
  rintro _ ⟨e, rfl, he⟩
  refine Takes.spanFrom_bind fun _ => .pure ?_
  rw [Stmt.unplaced, unplacedExprs, unplacedExprs, hfirst, he]

/-! ### Imports -/

/-- The names behind the points of a dotted name. -/
theorem takes_moreSegments (hrest : kindAt rest 0 ≠ .operator .dot) (name : String) (span : Span)
    (names : List String) :
    Takes (segmentWords names ++ rest) rest (moreSegments name span)
      fun r => r.1 = ".".intercalate (name :: names) := by
  induction names generalizing name span with
  | nil => exact Takes.loop_finished (Takes.at?_false hrest (.pure ⟨_, rfl, rfl⟩))
  | cons next names ih =>
    refine Takes.loop_again (y := segmentWords names ++ rest)
      (S := fun r => r.1 = name ++ "." ++ next) (Takes.at?_true rfl ?_) ?_ ?_
    · refine Takes.peekNext_bind fun token htoken => ?_
      have hkind : token.kind = .identifier := congrArg Word.kind htoken
      have htext : token.text = next := Token.text_of_word htoken rfl
      have hident : identifier? token = some ⟨next, token.span⟩ := by
        rw [identifier?, hkind, htext]
      rw [hident]
      exact Takes.advance_bind (Takes.advance_bind (.pure ⟨_, rfl, rfl⟩))
    · exact Nat.lt_succ_of_lt (Nat.lt_succ_self _)
    · rintro ⟨name', span'⟩ hname
      exact (ih name' span').weaken fun r hr => by
        rw [hr, show name' = name ++ "." ++ next from hname]
        rfl

theorem takes_dottedName {path : DottedPath} (hrest : kindAt rest 0 ≠ .operator .dot) :
    Takes (path.words ++ rest) rest dottedName
      fun r => ∃ span, r = some (path.text, span) := by
  refine Takes.expectIdentifier_bind rfl fun ident hident => Takes.map ?_
  refine (takes_moreSegments hrest ident.name ident.span path.more).weaken ?_
  rintro ⟨name, span⟩ hname
  refine ⟨span, ?_⟩
  rw [show name = _ from hname, hident]
  rfl

/-- Kinds of words behind which the names of an import do not go on. -/
def TokenKind.endsImported (k : TokenKind) : Prop :=
  k ≠ .operator .dot ∧ k ≠ .keyword .as

theorem endsImported_comma : (TokenKind.operator .comma).endsImported := by
  constructor <;> exact fun heq => by cases heq

theorem endsImported_newline : TokenKind.newline.endsImported :=
  ⟨TokenKind.noConfusion, TokenKind.noConfusion⟩

theorem takes_aliasFor (hrest : (kindAt rest 0).endsImported) (name : String) (span : Span)
    (asname : Option String) :
    Takes (asnameWords asname ++ rest) rest (aliasFor name span)
      fun r => ∃ a, r = some a
        ∧ a.unplaced = ⟨name, asname.map (⟨·, .nowhere⟩), .nowhere⟩ := by
  cases asname with
  | none => exact Takes.eats_false hrest.2 (.pure ⟨_, rfl, rfl⟩)
  | some newName =>
    refine Takes.eats_true rfl (Takes.expectIdentifier_bind rfl fun ident hident => ?_)
    refine .pure ⟨_, rfl, ?_⟩
    rw [Alias.unplaced, Option.map_some, Identifier.unplaced, hident]
    rfl

/-- What follows a dotted name is no point. -/
theorem kindAt_asnameWords (hrest : (kindAt rest 0).endsImported) (asname : Option String) :
    kindAt (asnameWords asname ++ rest) 0 ≠ .operator .dot := by
  cases asname with
  | none => exact hrest.1
  | some _ => exact TokenKind.noConfusion

theorem takes_moduleAlias (hrest : (kindAt rest 0).endsImported) (m : ImportedModule) :
    Takes (m.words ++ rest) rest moduleAlias
      fun r => ∃ a, r = some a ∧ a.unplaced = m.alias := by
  rw [ImportedModule.words, List.append_assoc]
  refine (takes_dottedName (kindAt_asnameWords hrest _)).bind ?_
  rintro _ ⟨span, rfl⟩
  exact takes_aliasFor hrest _ _ _

theorem takes_memberAlias (hrest : (kindAt rest 0).endsImported) (m : ImportedMember) :
    Takes (m.words ++ rest) rest memberAlias
      fun r => ∃ a, r = some a ∧ a.unplaced = m.alias := by
  refine Takes.expectIdentifier_bind rfl fun ident hident => ?_
  dsimp only
  rw [hident]
  exact takes_aliasFor hrest _ _ _

/-- A loop that reads names with commas between them, up to the end of the line. -/
theorem takes_commaSeparated {α : Type} {words : α → List Word} {tree : α → Alias}
    {step : List Alias → Parser (LoopStep (List Alias) (List Alias))}
    (hagain : ∀ (m : α) (rest : List Word) (done : List Alias),
      Takes (words m ++ .comma :: rest) rest (step done)
        fun r => ∃ a : Alias, r = .again (done ++ [a]) ∧ a.unplaced = tree m)
    (hfinished : ∀ (m : α) (rest : List Word) (done : List Alias),
      Takes (words m ++ .newline :: rest) (.newline :: rest) (step done)
        fun r => ∃ a : Alias, r = .finished (done ++ [a]) ∧ a.unplaced = tree m)
    (m : α) (ms : List α) (done : List Alias) :
    Takes (words m ++ (behindCommas (ms.map words) ++ .newline :: rest)) (.newline :: rest)
      (loop id step done)
      fun names => names.map Alias.unplaced = done.map Alias.unplaced ++ (m :: ms).map tree := by
  induction ms generalizing m done with
  | nil =>
    refine Takes.loop_finished ((hfinished m rest done).weaken ?_)
    rintro _ ⟨a, rfl, ha⟩
    exact ⟨_, rfl, by rw [List.map_append, List.map_singleton, ha]; rfl⟩
  | cons next ms ih =>
    have hsplit : behindCommas ((next :: ms).map words) ++ .newline :: rest
        = .comma :: (words next ++ (behindCommas (ms.map words) ++ .newline :: rest)) := by
      simp [behindCommas]
    rw [hsplit]
    refine Takes.loop_again (S := fun names => ∃ a : Alias, names = done ++ [a]
      ∧ a.unplaced = tree m) ((hagain m _ done).weaken ?_) ?_ ?_
    · rintro _ ⟨a, rfl, ha⟩
      exact ⟨_, rfl, a, rfl, ha⟩
    · simp only [List.length_append, List.length_cons]
      omega
    · rintro _ ⟨a, rfl, ha⟩
      refine (ih next (done ++ [a])).weaken fun names hnames => ?_
      rw [hnames, List.map_append, List.map_singleton, ha, List.append_assoc]
      rfl

theorem takes_moduleAliases (m : ImportedModule) (ms : List ImportedModule) :
    Takes (m.words ++ (behindCommas (ms.map ImportedModule.words) ++ .newline :: rest))
      (.newline :: rest) moduleAliases
      fun names => names.map Alias.unplaced = (m :: ms).map ImportedModule.alias := by
  refine takes_commaSeparated (fun m rest done => ?_) (fun m rest done => ?_) m ms []
  · have hcomma : (kindAt (.comma :: rest) 0).endsImported := endsImported_comma
    refine (takes_moduleAlias hcomma m).bind ?_
    rintro _ ⟨a, rfl, ha⟩
    exact Takes.eats_true rfl (.pure ⟨a, rfl, ha⟩)
  · have hnewline : (kindAt (.newline :: rest) 0).endsImported := endsImported_newline
    refine (takes_moduleAlias hnewline m).bind ?_
    rintro _ ⟨a, rfl, ha⟩
    exact Takes.eats_false TokenKind.noConfusion (.pure ⟨a, rfl, ha⟩)

theorem takes_memberAliases (m : ImportedMember) (ms : List ImportedMember) :
    Takes (m.words ++ (behindCommas (ms.map ImportedMember.words) ++ .newline :: rest))
      (.newline :: rest) (memberAliases false)
      fun names => names.map Alias.unplaced = (m :: ms).map ImportedMember.alias := by
  refine takes_commaSeparated (fun m rest done => ?_) (fun m rest done => ?_) m ms []
  · have hcomma : (kindAt (.comma :: rest) 0).endsImported := endsImported_comma
    refine Takes.at?_bind ((takes_memberAlias hcomma m).bind ?_)
    rintro _ ⟨a, rfl, ha⟩
    exact Takes.eats_true rfl (.pure ⟨a, rfl, ha⟩)
  · have hnewline : (kindAt (.newline :: rest) 0).endsImported := endsImported_newline
    refine Takes.at?_bind ((takes_memberAlias hnewline m).bind ?_)
    rintro _ ⟨a, rfl, ha⟩
    exact Takes.eats_false TokenKind.noConfusion (.pure ⟨a, rfl, ha⟩)

/-- An import statement. -/
theorem takes_import (m : ImportedModule) (ms : List ImportedModule) :
    Takes (Keyword.import.word :: (m.words ++ (behindCommas (ms.map ImportedModule.words)
      ++ .newline :: rest))) (.newline :: rest) (smallStatement v)
      fun stmt => stmt.unplaced = .importModules ((m :: ms).map ImportedModule.alias) .nowhere := by
  refine Takes.peek_bind fun token htoken => ?_
  have hkind : token.kind = .keyword .import := congrArg Word.kind htoken
  rw [hkind]
  refine Takes.next_bind fun word _ => (takes_moduleAliases m ms).bind fun names hnames => ?_
  refine Takes.spanFrom_bind fun _ => .pure ?_
  rw [Stmt.unplaced, hnames]

/-- The points before the module of a from-import. -/
theorem takes_morePoints (hdot : kindAt rest 0 ≠ .operator .dot)
    (hellipsis : kindAt rest 0 ≠ .operator .ellipsis) (n level : Nat) :
    Takes (List.replicate n .dot ++ rest) rest (morePoints level) fun l => l = level + n := by
  induction n generalizing level with
  | zero =>
    refine Takes.loop_finished (Takes.kind_bind ?_)
    split
    · next heq => exact absurd heq hdot
    · next heq => exact absurd heq hellipsis
    · exact .pure ⟨_, rfl, rfl⟩
  | succ n ih =>
    refine Takes.loop_again (y := List.replicate n .dot ++ rest) (S := fun l => l = level + 1)
      (Takes.kind_bind (Takes.advance_bind (.pure ⟨_, rfl, rfl⟩))) (Nat.lt_succ_self _) ?_
    rintro _ rfl
    exact (ih (level + 1)).weaken fun l hl => by omega

/-- What a from-import takes. -/
theorem takes_importNames (names : ImportedNames) :
    Takes (names.words ++ .newline :: rest) (.newline :: rest) importNames
      fun r => r.unplaced = names.tree := by
  cases names with
  | star => exact Takes.eat_some rfl fun _ _ => .pure rfl
  | names first more =>
    refine Takes.eat_none (fun heq => by cases heq) (Takes.eats_false (fun heq => by cases heq) ?_)
    rw [ImportedNames.words, List.append_assoc]
    refine (takes_memberAliases first more).bind fun names hnames => .pure ?_
    rw [ImportNames.unplaced, hnames]
    rfl

theorem takes_importFromModule (module : Option String) (level : Nat) (names : ImportedNames)
    (start : Span) :
    Takes (Keyword.import.word :: (names.words ++ .newline :: rest)) (.newline :: rest)
      (importFromModule start module level)
      fun stmt => stmt.unplaced = .importFrom module level names.tree .nowhere := by
  refine Takes.peekKind_bind fun _ _ => Takes.eats_true rfl ?_
  refine (takes_importNames names).bind fun r hr => Takes.spanFrom_bind fun _ => .pure ?_
  rw [Stmt.unplaced, hr]

/-- A from-import. -/
theorem takes_importFrom {level : Nat} {module : Option DottedPath} (names : ImportedNames)
    (hlevel : module = none → 0 < level) :
    Takes (Keyword.from.word :: (List.replicate level .dot
        ++ ((module.map DottedPath.words).getD []
          ++ Keyword.import.word :: (names.words ++ .newline :: rest)))) (.newline :: rest)
      (smallStatement v)
      fun stmt => stmt.unplaced
        = .importFrom (module.map DottedPath.text) level names.tree .nowhere := by
  have hfirst : kindAt ((module.map DottedPath.words).getD []
      ++ Keyword.import.word :: (names.words ++ .newline :: rest)) 0
      = if module.isSome then .identifier else .keyword .import := by
    cases module <;> rfl
  refine Takes.peek_bind fun token htoken => ?_
  have hkind : token.kind = .keyword .from := congrArg Word.kind htoken
  rw [hkind]
  refine Takes.next_bind fun word _ => ?_
  refine (takes_morePoints ?_ ?_ level 0).bind ?_
  -- Behind the points comes a name or `import`, and no further point.
  · rw [hfirst]
    split <;> exact TokenKind.noConfusion
  · rw [hfirst]
    split <;> exact TokenKind.noConfusion
  · rintro _ rfl
    rw [Nat.zero_add]
    cases module with
    | none =>
      refine Takes.at?_true rfl ?_
      have hpoints : (true && decide (level > 0)) = true := by simpa using hlevel rfl
      rw [hpoints]
      exact takes_importFromModule none level names word.span
    | some path =>
      refine Takes.at?_false (fun heq => by cases heq) ?_
      refine (takes_dottedName (by exact TokenKind.noConfusion)).bind ?_
      rintro _ ⟨span, rfl⟩
      exact takes_importFromModule (some path.text) level names word.span

/-! ### The line of a statement -/

/-- `pass` has no operands. -/
theorem takes_skipOperands :
    Takes (.newline :: rest) (.newline :: rest) skipOperands fun _ => True := by
  refine Takes.loop_finished (Takes.peekKind_bind fun token hkind => ?_)
  rw [hkind]
  exact .pure ⟨(), rfl, trivial⟩

theorem takes_pass :
    Takes (Keyword.pass.word :: .newline :: rest) (.newline :: rest) (smallStatement v)
      fun stmt => stmt.unplaced = .simple .pass .nowhere := by
  refine Takes.peek_bind fun token htoken => ?_
  have hkind : token.kind = .keyword .pass := congrArg Word.kind htoken
  rw [hkind]
  exact Takes.advance_bind (takes_skipOperands.bind fun _ _ =>
    Takes.spanFrom_bind fun _ => .pure rfl)

/-- Kinds of words that begin a statement without a body. -/
def TokenKind.opensSmall : TokenKind → Bool
  | .identifier | .keyword .pass | .keyword .import | .keyword .from => true
  | _ => false

/-- A statement without a body is the only one of its line. -/
theorem takes_smallStatements {words : List Word} {Q : Stmt → Prop}
    (h : Takes (words ++ .newline :: rest) (.newline :: rest) (smallStatement v) Q) :
    Takes (words ++ .newline :: rest) rest (smallStatements v)
      fun stmts => ∃ stmt, stmts = [stmt] ∧ Q stmt := by
  refine Takes.loop_finished (h.bind fun stmt hstmt => ?_)
  refine Takes.peekKind_bind fun token hkind => ?_
  rw [hkind]
  exact Takes.advance_bind (.pure ⟨_, rfl, stmt, rfl, hstmt⟩)

/-- No word is special before a definition without being reserved. -/
theorem atAsync_eq_false (hv : v.atLeast 3 7 = true) {c : Cursor}
    (hkind : c.kindAt 0 ≠ .keyword .async) : c.atAsync v 0 = false := by
  have hsoft : v.hasSoftAsync = false := by
    rw [Version.hasSoftAsync, hv, Bool.not_true, Bool.and_false]
  rw [Cursor.atAsync, beq_eq_false_iff_ne.2 hkind, hsoft]
  rfl

/-- Where a statement without a body begins, it is read as such. -/
theorem takes_statement_small {body : Parser (List Stmt)} {w : Word} {words after : List Word}
    {Q : List Stmt → Prop} (hv : v.atLeast 3 7 = true) (hopens : w.kind.opensSmall = true)
    (hsubject : w.kind = .identifier → (kindAt words 0).startsSubject = false)
    (h : Takes (w :: words) after (smallStatements v) Q) :
    Takes (w :: words) after (statement v body) Q := by
  -- Neither of the statements that begin with a word that is a name elsewhere comes next.
  have hasync : ∀ s : ParserState, s.ahead = w :: words → s.cursor.atAsync v 0 = false := by
    refine fun s hs => atAsync_eq_false hv ?_
    rw [s.kindAt_eq hs, kindAt_zero]
    intro heq
    rw [heq] at hopens
    cases hopens
  have hmatch : ∀ s : ParserState, s.ahead = w :: words → s.cursor.atMatch v = false := by
    intro s hs
    rw [Cursor.atMatch, Token.isWord, s.kindAt_eq hs, kindAt_succ, ← Cursor.kind_eq,
      s.kind_of_ahead hs]
    by_cases hident : w.kind = .identifier
    · rw [hsubject hident, Bool.and_false, Bool.false_and]
    · rw [beq_eq_false_iff_ne.2 hident, Bool.false_and, Bool.and_false, Bool.false_and,
        Bool.false_and]
  have hsmall : Takes (w :: words) after
      (do
        if ← look (Cursor.atAsync v · 0) then List.singleton <$> asyncStatement v body [] none
        else if ← look (Cursor.atMatch v) then List.singleton <$> matchStatement v body
        else smallStatements v) Q :=
    Takes.look_bind hasync (Takes.look_bind hmatch h)
  refine Takes.peek_bind fun token htoken => ?_
  have hkind : token.kind = w.kind := congrArg Word.kind htoken
  rw [hkind]
  generalize w.kind = k at hopens
  cases k with
  | identifier => exact hsmall
  | keyword word => cases word <;> first | exact absurd hopens Bool.false_ne_true | exact hsmall
  | _ => cases hopens

/-- A line that holds one statement without a body. -/
theorem takes_smallLine {body : Parser (List Stmt)} {w : Word} {words : List Word} {tree : Stmt}
    (hv : v.atLeast 3 7 = true) (hopens : w.kind.opensSmall = true)
    (hsubject : w.kind = .identifier →
      (kindAt (words ++ .newline :: rest) 0).startsSubject = false)
    (h : Takes (w :: words ++ .newline :: rest) (.newline :: rest) (smallStatement v)
      fun stmt => stmt.unplaced = tree) :
    Takes (w :: words ++ .newline :: rest) rest (statement v body)
      fun stmts => unplacedBody stmts = [tree] := by
  refine takes_statement_small hv hopens hsubject ((takes_smallStatements h).weaken ?_)
  rintro _ ⟨stmt, rfl, hstmt⟩
  rw [unplacedBody, unplacedBody, hstmt]

end PyAtlas
