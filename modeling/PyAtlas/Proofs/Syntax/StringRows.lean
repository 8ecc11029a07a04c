import PyAtlas.Proofs.Syntax.SketchLines
import PyAtlas.Proofs.Token.Escapes

/-!
# Literals in a row

A line that holds nothing but string literals is one expression: a string whose value is what the
literals stand for, one after the other, under the marks of the first of them. This holds in all
versions, because no word that is special in some of them begins a literal.

Together with what is known of written literals this gives a round trip: texts that are written as
literals are read as their concatenation.

## Key results
- `takes_stringRow`: literals in a row are one operand.
- `takes_statement_string`: a statement that begins with a literal has no body.
- `SyntaxTree.parse_writtenStrings`: the module that literals in a row are read as.
-/

namespace PyAtlas

open PyAtlas.Parser

variable {v : Version} {w : Word} {words rest : List Word} {marks : StringMarks}

theorem TokenKind.exists_marks {kind : TokenKind} (h : kind.isString = true) :
    ∃ marks, kind = .string marks := by
  cases kind with
  | string marks => exact ⟨marks, rfl⟩
  | _ => cases h

/-! ### Operands -/

/-- What a literal adds to the value of a row. -/
def Word.stringValue (w : Word) : String :=
  ((StringLiteral.decode? w.text).map (·.value)).getD ""

theorem stringValue_of_word {token : Token} (h : token.word = w) (hw : w.kind = .string marks) :
    Parser.stringValue token = w.stringValue := by
  rw [Parser.stringValue, Word.stringValue, Token.text_of_word h (by rw [hw]; rfl)]

/-- Literals behind others add their values. -/
theorem takes_stringLoop (hwords : ∀ w ∈ words, w.kind.isString = true)
    (hrest : (kindAt rest 0).isString = false) (value : String) (span : Span) :
    Takes (words ++ rest) rest (loop id stringStep (value, span))
      fun r => r.1 = value ++ String.join (words.map Word.stringValue) := by
  induction words generalizing value span with
  | nil =>
    refine Takes.loop_finished (Takes.peekKind_bind fun token hkind => ?_)
    split
    · rename_i marks hmarks
      rw [← show token.kind = kindAt rest 0 from hkind, hmarks] at hrest
      cases hrest
    · exact .pure ⟨_, rfl, by simp⟩
  | cons w words ih =>
    obtain ⟨hw, hwords⟩ := List.forall_mem_cons.1 hwords
    obtain ⟨marks, hmarks⟩ := TokenKind.exists_marks hw
    refine Takes.loop_again (y := words ++ rest) (S := fun r => r.1 = value ++ w.stringValue)
      (Takes.peek_bind fun token htoken => ?_) (Nat.lt_succ_self _) ?_
    · have hkind : token.kind = .string marks := (congrArg Word.kind htoken).trans hmarks
      rw [hkind]
      exact Takes.advance_bind (.pure ⟨_, rfl, by rw [stringValue_of_word htoken hmarks]⟩)
    · rintro ⟨value', span'⟩ hvalue'
      refine (ih hwords value' span').weaken fun r hr => ?_
      rw [hr, show value' = value ++ w.stringValue from hvalue', List.map_cons, String.join_cons,
        String.append_assoc]

/-- Literals in a row are one operand. -/
theorem takes_stringRow (hw : w.kind = .string marks)
    (hwords : ∀ w ∈ words, w.kind.isString = true) (hrest : (kindAt rest 0).isString = false)
    (expr : ExprParser) :
    Takes (w :: words ++ rest) rest (operand v expr) fun e =>
      e.unplaced = .str (String.join ((w :: words).map Word.stringValue)) marks .nowhere := by
  refine takes_operandAfter (fun token hkind => ?_) (by rw [hw]; rfl) fun token htoken => ?_
  · rw [identifier?, hkind, hw]
  · have hkind : token.kind = .string marks := (congrArg Word.kind htoken).trans hw
    rw [operandAfter, hkind]
    refine (takes_stringLoop hwords hrest (stringValue token) token.span).bind ?_
    rintro ⟨value, span⟩ hvalue
    refine .pure ?_
    rw [Expr.unplaced, show value = _ from hvalue, stringValue_of_word htoken hw, List.map_cons,
      String.join_cons]

/-! ### Statements -/

/-- An expression on a line of its own. -/
theorem takes_expressionStatement {before : List Word} {tree : Expr}
    (h : Takes before (.newline :: rest) (Parser.starExpressions v) fun e => e.unplaced = tree) :
    Takes before (.newline :: rest) (expressionStatement v)
      fun stmt => stmt.unplaced = .expr tree := by
  refine Takes.peekKind_bind fun start _ => h.bind fun e he => Takes.peek_bind fun token htoken => ?_
  have hkind : token.kind = .newline := congrArg Word.kind htoken
  rw [hkind]
  exact .pure (by rw [Stmt.unplaced, he])

/-- A statement that begins with a literal is an expression. -/
theorem takes_smallStatement_string {Q : Stmt → Prop} {after : List Word}
    (hw : w.kind = .string marks)
    (h : Takes (w :: words) after (expressionStatement v) Q) :
    Takes (w :: words) after (smallStatement v) Q := by
  refine Takes.peek_bind fun token htoken => ?_
  have hkind : token.kind = .string marks := (congrArg Word.kind htoken).trans hw
  rw [hkind]
  exact h

/-- A statement that begins with a literal has no body. -/
theorem takes_statement_string {body : Parser (List Stmt)} {Q : List Stmt → Prop}
    {after : List Word} (hw : w.kind = .string marks)
    (h : Takes (w :: words) after (smallStatements v) Q) :
    Takes (w :: words) after (statement v body) Q := by
  -- Only names can be special without being reserved.
  have hword : ∀ (s : ParserState) (text : String), s.ahead = w :: words →
      s.cursor.peek.isWord text = false := by
    intro s text hs
    rw [Token.isWord, ← Cursor.kind_eq, s.kind_of_ahead hs, hw]
    rfl
  have hasync : ∀ s : ParserState, s.ahead = w :: words → s.cursor.atAsync v 0 = false := by
    intro s hs
    have hreserved : s.cursor.kindAt 0 = .string marks := (s.kind_of_ahead hs).trans hw
    have hsoft : (s.cursor.peekNth 0).isWord "async" = false := hword s "async" hs
    rw [Cursor.atAsync, hreserved, hsoft, Bool.and_false]
    rfl
  have hmatch : ∀ s : ParserState, s.ahead = w :: words → s.cursor.atMatch v = false := by
    intro s hs
    rw [Cursor.atMatch, hword s "match" hs, Bool.and_false, Bool.false_and, Bool.false_and]
  refine Takes.peek_bind fun token htoken => ?_
  have hkind : token.kind = .string marks := (congrArg Word.kind htoken).trans hw
  rw [hkind]
  exact Takes.look_bind hasync (Takes.look_bind hmatch h)

/-- A line of literals is one statement. -/
theorem takes_stringLine {body : Parser (List Stmt)} (hw : w.kind = .string marks)
    (hwords : ∀ w ∈ words, w.kind.isString = true) :
    Takes (w :: words ++ .newline :: rest) rest (statement v body) fun stmts =>
      unplacedBody stmts
        = [.expr (.str (String.join ((w :: words).map Word.stringValue)) marks .nowhere)] := by
  have hexpression : Takes (w :: words ++ .newline :: rest) (.newline :: rest)
      (Parser.expression v) _ :=
    takes_expression_of_operand (takes_stringRow hw hwords rfl) rfl
  have hstar : kindAt (w :: words ++ .newline :: rest) 0 ≠ .operator .star := by
    rw [List.cons_append, kindAt_zero, hw]
    exact TokenKind.noConfusion
  have hsmall : Takes (w :: words ++ .newline :: rest) (.newline :: rest) (smallStatement v) _ :=
    takes_smallStatement_string hw
      (takes_expressionStatement (hexpression.starExpressions hstar TokenKind.noConfusion))
  have hline : Takes (w :: words ++ .newline :: rest) rest (smallStatements v) _ :=
    takes_smallStatements hsmall
  refine takes_statement_string hw (hline.weaken ?_)
  rintro _ ⟨stmt, rfl, hstmt⟩
  rw [unplacedBody, unplacedBody, hstmt]

/-- A line of literals is the only statement of its module. -/
theorem takes_moduleBody_strings (hw : w.kind = .string marks)
    (hwords : ∀ w ∈ words, w.kind.isString = true) :
    Takes (w :: words ++ [.newline, .eof]) [.eof] (moduleBody v) fun stmts =>
      unplacedBody stmts
        = [.expr (.str (String.join ((w :: words).map Word.stringValue)) marks .nowhere)] := by
  have hitem : Takes (w :: words ++ [.newline, .eof]) [.eof] (moduleItem v) fun stmts =>
      unplacedBody stmts
        = [.expr (.str (String.join ((w :: words).map Word.stringValue)) marks .nowhere)] := by
    refine Takes.peek_bind fun token htoken => ?_
    have hkind : token.kind = .string marks := (congrArg Word.kind htoken).trans hw
    rw [hkind]
    exact takes_stringLine hw hwords
  have hfirst : kindAt (w :: words ++ [.newline, .eof]) 0 = .string marks := hw
  refine Takes.loop_again (y := [.eof]) (S := fun stmts => unplacedBody stmts
    = [.expr (.str (String.join ((w :: words).map Word.stringValue)) marks .nowhere)]) ?_ ?_ ?_
  · refine Takes.skipNewlines_bind (by rw [hfirst]; exact TokenKind.noConfusion) ?_
    refine Takes.at?_false (by rw [hfirst]; exact TokenKind.noConfusion) ?_
    exact hitem.bind fun stmts hstmts => .pure ⟨stmts, rfl, hstmts⟩
  · simp only [List.length_append, List.length_cons, List.length_nil]
    omega
  · intro stmts hstmts
    refine Takes.loop_finished (Takes.skipNewlines_bind TokenKind.noConfusion ?_)
    exact Takes.at?_true rfl (.pure ⟨stmts, rfl, hstmts⟩)

/-! ### Written literals -/

namespace WrittenString

theorem stringValue_word (w : WrittenString) : w.word.stringValue = w.value := by
  rw [Word.stringValue, word, w.decode?_text]
  rfl

/-- Literals with single spaces between them. -/
def row (literals : List WrittenString) : String :=
  " ".intercalate (literals.map text)

theorem row_eq (literals : List WrittenString) :
    row literals = String.ofList (Lexer.spaced (literals.map word)) := by
  rw [row, ← String.toList_inj, String.toList_ofList, String.toList_intercalate, Lexer.spaced,
    List.map_map, List.map_map]
  rfl

end WrittenString

/-- Texts that are written as literals in a row are read as one string: all of the texts one after
    the other, under the marks of the first literal, in a statement of their own and without any
    error. -/
theorem SyntaxTree.parse_writtenStrings (first : WrittenString) (more : List WrittenString)
    (hexist : ∀ w ∈ first :: more, w.ExistsIn v) :
    unplacedBody (SyntaxTree.parse v (WrittenString.row (first :: more))).body
        = [.expr (.str (String.join ((first :: more).map (·.value))) first.marks .nowhere)]
      ∧ (SyntaxTree.parse v (WrittenString.row (first :: more))).errors = [] := by
  have hseparate : Lexer.AllSeparate v ((first :: more).map WrittenString.word) := by
    intro w hw
    obtain ⟨written, hwritten, rfl⟩ := List.mem_map.1 hw
    exact written.separate (hexist written hwritten)
  have hahead : (Parser.start v (WrittenString.row (first :: more))).ahead
      = first.word :: more.map WrittenString.word ++ [.newline, .eof] := by
    rw [WrittenString.row_eq]
    exact tokenize_words (List.cons_ne_nil _ _) hseparate
  have hstrings : ∀ w ∈ more.map WrittenString.word, w.kind.isString = true := by
    intro w hw
    obtain ⟨written, -, rfl⟩ := List.mem_map.1 hw
    rfl
  have hvalues : (first.word :: more.map WrittenString.word).map Word.stringValue
      = (first :: more).map (·.value) := by
    rw [← List.map_cons, List.map_map]
    exact List.map_congr_left fun w _ => w.stringValue_word
  obtain ⟨-, herrors, hbody⟩ := takes_moduleBody_strings (w := first.word) rfl hstrings _ hahead
  rw [hvalues] at hbody
  exact ⟨hbody, herrors⟩

/-- Bytes in single quotes and a formatted text in triple quotes, with quotes, line feeds and
    backslashes in both. -/
theorem parse_writtenStrings_bytes :
    let first : WrittenString :=
      ⟨['B'], ⟨false, true, false, false⟩, '\x27', false, "it\x27s\n\\x41", rfl, rfl, rfl⟩
    let second : WrittenString :=
      ⟨['f'], ⟨false, false, false, true⟩, '\x22', true, "\x22\n\\", rfl, rfl, rfl⟩
    let text := "B\x27it\\\x27s\\n\\\\x41\x27 f\x22\x22\x22\\\x22\n\\\\\x22\x22\x22"
    WrittenString.row [first, second] = text
      ∧ (∀ w ∈ [first, second], w.ExistsIn .v310)
      ∧ unplacedBody (SyntaxTree.parse .v310 text).body
        = [.expr (.str "it\x27s\n\\x41\x22\n\\" first.marks .nowhere)]
      ∧ (SyntaxTree.parse .v310 text).errors = [] := by
  intro first second text
  have hexist : ∀ w ∈ [first, second], w.ExistsIn .v310 := fun _ _ => .inl rfl
  have htext : WrittenString.row [first, second] = text := by decide +kernel
  have hvalue : String.join ([first, second].map (·.value)) = "it\x27s\n\\x41\x22\n\\" := by
    decide +kernel
  have hparse := SyntaxTree.parse_writtenStrings first [second] hexist
  rw [htext, hvalue] at hparse
  exact ⟨htext, hexist, hparse⟩

end PyAtlas
