import Mathlib.Data.List.Basic
import PyAtlas.Proofs.Syntax.SketchParsing
import PyAtlas.Proofs.Token.Stream

/-!
# Match statements

No word is reserved for match statements, so where one begins is found out by looking ahead: from
the first token of the subject, and from the colon at the end of the line. Which colon ends the
header is then found out by counting, without reading the subject. Where a subject begins with a
token that `TokenKind.startsSubject` lists, and every lambda outside of brackets has its colon, the
lookahead and the count agree, and the statement is read with all its cases.

## Key definitions
- `FillsLine`: a text is one logical line.
- `PassingCase`: a case with a name for its pattern and `pass` for its body.

## Key results
- `takes_matchStatement`: a match statement is read with all its cases.
- `FillsLine.parse_match`: a text of one match statement is recognised.
- `match_not_recognised`: subjects that are expressions and with which the statement has errors.
-/

namespace PyAtlas

open PyAtlas.Parser

/-! ### The end of a line -/

/-- Where the last line of a text ends no bracket is open. -/
theorem bracketsLeftOpen_of_newline {v : Version} {source : String} {before after : List Token}
    {t : Token} (h : tokenize v source = before ++ t :: after) (hk : t.kind = .newline)
    (hspan : t.span.start < t.span.stop) : bracketsLeftOpen before = 0 := by
  obtain ⟨body, s, hsteps, hend⟩ := Lexer.exists_steps_atEnd v (.start source)
  have hplaced := hsteps.wellPlaced (fun _ => rfl) hend
  have htokens : body ++ Lexer.finish s.layout s.input.stop = before ++ t :: after := by
    rw [← hend.run, ← h]
    exact hsteps.run.symm
  -- The newline stands for a character, so it is not one of the tokens at the end of the text.
  have hnot : t ∉ Lexer.finish s.layout s.input.stop := by
    intro hmem
    rw [(Lexer.mem_finish hmem).1] at hspan
    exact Nat.lt_irrefl _ hspan
  obtain ⟨later, rfl⟩ : ∃ later, body = before ++ t :: later := by
    rcases List.append_eq_append_iff.1 htokens with ⟨_, -, hfinish⟩ | ⟨later, hbody, hlater⟩
    · exact absurd (by simp [hfinish]) hnot
    · cases later with
      | nil =>
        rw [List.nil_append] at hlater
        exact absurd (hlater ▸ List.mem_cons_self) hnot
      | cons u later =>
        rw [List.cons_append, List.cons.injEq] at hlater
        exact ⟨later, by rw [hbody, hlater.1]⟩
  obtain ⟨due, hrest⟩ := hplaced.of_append
  exact hrest.depth_eq_zero (by rw [hk]; rfl)

theorem bracketsLeftOpen_eq (ts : List Token) :
    bracketsLeftOpen ts = (kindsOf (ts.map Token.word)).foldl depthBehind 0 := by
  rw [bracketsLeftOpen, kindsOf, List.map_map, List.foldl_map]
  rfl

/-! ### Texts of match statements -/

/-- The line that begins a match statement. -/
def matchLine (subject : String) : String := "match " ++ subject ++ ":\n"

/-- The text is one logical line of these words: read alone they are all that it holds, and between
    `match` and a colon they are the same and the line ends behind that colon. -/
structure FillsLine (v : Version) (text : String) (words : List Word) : Prop where
  alone : (tokenize v text).map Token.word = words ++ [.newline, .eof]
  plain : ∀ w ∈ words, w.kind.isLayout = false
  header : (tokenize v (matchLine text)).map Token.word
    = .name "match" :: words ++ [.colon, .newline, .eof]
  ended : Lexer.EndsAt (matchLine text).utf8ByteSize (tokenize v (matchLine text))

/-- A case with a name for its pattern and `pass` for its body. Both lines have a margin. -/
structure PassingCase where
  name : String
  margin : String
  inner : String
deriving Repr, DecidableEq

namespace PassingCase

def text (c : PassingCase) : String :=
  c.margin ++ ("case " ++ c.name ++ ":\n") ++ (c.inner ++ "pass\n")

/-- The case stands at the column and its body at a deeper one. -/
structure Valid (v : Version) (column : Nat) (c : PassingCase) : Prop where
  name : Unreserved v c.name
  margin : Lexer.Margin column c.margin.toList
  inner : ∃ deeper, column < deeper ∧ Lexer.Margin deeper c.inner.toList

/-- The case as a clause with a header and a body. -/
def clause (c : PassingCase) : ClauseKind × List Word × List Sketch :=
  (.case, [.name c.name], [.pass])

end PassingCase

/-- The block of a match statement. -/
def casesText : List PassingCase → String
  | [] => ""
  | c :: cases => c.text ++ casesText cases

section Text

open Lexer

variable {v : Version} {column : Nat} {blocks left : List Nat} {paid : List Word}
  {c : PassingCase} {cases : List PassingCase}

theorem PassingCase.Valid.renders (hv : v.atLeast 3 7 = true) (h : c.Valid v column)
    (rest : List Char) :
    Renders v ('\n' :: rest) (ClauseKind.case.header [.name c.name])
      ('c' :: ("ase ".toList ++ (c.name.toList ++ ":".toList))) := by
  have hcase : FreeName v "case" := by
    refine Unreserved.free ⟨by decide, ?_⟩ hv
    cases v <;> decide
  have hcolon : Renders v ('\n' :: rest) [.colon] ":".toList :=
    .single (standsBefore_sign (by decide) rfl)
  have hname : Renders v ('\n' :: rest) [.name c.name, .colon] (c.name.toList ++ ":".toList) :=
    .append ((h.name.free hv).renders rfl) hcolon
  exact .word (hcase.standsBefore rfl) (.space hname)

/-- A case leaves the block of its body open. -/
theorem run_case (hv : v.atLeast 3 7 = true) (hc : c.Valid v column)
    (h : Settles column blocks paid left) (offset : Nat) (rest : List Char) :
    ∃ ts deeper offset', column < deeper
      ∧ ts.map Token.word = paid ++ (ClauseKind.case.header [.name c.name]
        ++ .newline :: .indent :: bodyWords [.pass])
      ∧ run v ⟨blocks, 0, false⟩ true ⟨offset, c.text.toList ++ rest⟩
        = ts ++ run v ⟨deeper :: left, 0, false⟩ true ⟨offset', rest⟩ := by
  obtain ⟨deeper, hdeeper, hinner⟩ := hc.inner
  have hopens : Settles deeper left [.indent] (deeper :: left) :=
    .deeper (by rw [h.headD]; exact hdeeper)
  have hpass : Renders v ('\n' :: rest) [Keyword.pass.word] ('p' :: "ass".toList) :=
    .single (standsBefore_keyword rfl rfl (by decide) rfl)
  obtain ⟨ts, behind, hts, hrun⟩ := run_renders_line hc.margin h (by decide)
    (hc.renders hv (c.inner.toList ++ ('p' :: "ass".toList ++ '\n' :: rest))) rfl offset
  obtain ⟨ts', offset', hts', hrun'⟩ :=
    run_renders_line hinner hopens (by decide) hpass rfl behind
  refine ⟨ts ++ ts', deeper, offset', hdeeper, ?_, ?_⟩
  · rw [List.map_append, hts, hts']
    simp [bodyWords, bodyLines, Sketch.lines, lineStream, LineTree.stream]
  · rw [List.append_assoc, ← hrun', ← hrun, PassingCase.text]
    simp

/-- All cases of a block. -/
theorem run_cases (hv : v.atLeast 3 7 = true) (hne : cases ≠ [])
    (hcases : ∀ c ∈ cases, c.Valid v column) (h : Settles column blocks paid left)
    (offset : Nat) (rest : List Char) :
    ReadsLines v column blocks left (paid ++ lineStream (clauseLines (cases.map PassingCase.clause)))
      offset (casesText cases).toList rest := by
  induction cases generalizing blocks paid offset with
  | nil => exact absurd rfl hne
  | cons c cases ih =>
    obtain ⟨hc, hcases⟩ := List.forall_mem_cons.1 hcases
    obtain ⟨ts, deeper, behind, hdeeper, hts, hrun⟩ :=
      run_case hv hc h offset ((casesText cases).toList ++ rest)
    -- The body is left open; the next case closes it, or it is owed.
    have hclosed : ∀ c ∈ [deeper], column < c := List.forall_mem_singleton.2 hdeeper
    have hopen : Settles column ([deeper] ++ left) [.dedent] left := .same hclosed h.headD
    have hmore : ReadsLines v column ([deeper] ++ left) left
        ([.dedent] ++ lineStream (clauseLines (cases.map PassingCase.clause))) behind
        (casesText cases).toList rest := by
      cases cases with
      | nil => exact ⟨[], [deeper], behind, hclosed, rfl, rfl⟩
      | cons c cases => exact ih (List.cons_ne_nil _ _) hcases hopen behind
    have hblock : lineStream (clauseLines ((c :: cases).map PassingCase.clause)) ++ []
        = ClauseKind.case.header [.name c.name] ++ .newline :: .indent :: (bodyWords [.pass]
          ++ .dedent :: (lineStream (clauseLines (cases.map PassingCase.clause)) ++ [])) :=
      stream_block (List.cons_ne_nil _ _) _ _
    have hstream : paid ++ lineStream (clauseLines ((c :: cases).map PassingCase.clause))
        = ts.map Token.word
          ++ ([.dedent] ++ lineStream (clauseLines (cases.map PassingCase.clause))) := by
      rw [hts, ← List.append_nil (lineStream _), hblock]
      simp
    rw [hstream]
    refine hmore.behind rfl ?_
    rw [casesText, String.toList_append, List.append_assoc]
    exact hrun

/-- The tokens of a match statement: its header, and its cases in a block. -/
theorem FillsLine.tokenize_match {subject : String} {words : List Word}
    (h : FillsLine v subject words) (hv : v.atLeast 3 7 = true) (hne : cases ≠ [])
    (hcolumn : 0 < column) (hcases : ∀ c ∈ cases, c.Valid v column) :
    (tokenize v (matchLine subject ++ casesText cases)).map Token.word
      = .name "match" :: (words ++ .colon :: .newline :: .indent ::
        (lineStream (clauseLines (cases.map PassingCase.clause)) ++ [.dedent, .eof])) := by
  have hstop : (Input.ofChars (matchLine subject).toList).stop = (matchLine subject).utf8ByteSize := by
    rw [Input.stop, Input.ofChars, Nat.zero_add, Text.byteSize_toList]
  obtain ⟨ts, blocks, -, hline, hextend⟩ := run_extend v (casesText cases).toList .initial true
    (.ofChars (matchLine subject).toList) (List.forall_mem_nil _) (by rw [hstop]; exact h.ended)
  have hwords : ts.map Token.word ++ List.replicate blocks.length .dedent ++ [.eof]
      = (.name "match" :: words ++ [.colon]) ++ [.newline] ++ [.eof] := by
    have hheader := h.header
    rw [tokenize, hline, ← run_fresh_nil v, List.map_append, finish_dedents] at hheader
    simpa using hheader
  -- The line ends with its newline, so no block is left open.
  obtain rfl : blocks = [] := by
    rcases List.eq_nil_or_concat blocks with hnil | ⟨blocks, column, rfl⟩
    · exact hnil
    · have hlast := List.append_cancel_right hwords
      rw [List.concat_eq_append, List.length_append, List.length_singleton, List.replicate_succ',
        ← List.append_assoc] at hlast
      cases (List.append_inj' hlast rfl).2
  have hts : ts.map Token.word = .name "match" :: words ++ [.colon] ++ [.newline] := by
    have hcancel := List.append_cancel_right hwords
    rwa [List.length_nil, List.replicate_zero, List.append_nil] at hcancel
  have hopens : Settles column [] [.indent] [column] := .deeper hcolumn
  obtain ⟨ts', owed, offset, -, hstream, hrun⟩ :=
    run_cases hv hne hcases hopens (Input.ofChars (matchLine subject).toList).stop []
  have hcut : Input.ofChars (matchLine subject ++ casesText cases).toList
      = (Input.ofChars (matchLine subject).toList).extend (casesText cases).toList := by
    rw [String.toList_append]
    rfl
  rw [List.append_nil] at hrun
  rw [tokenize, hcut, hextend, hrun, List.map_append, List.map_append, finish_dedents, hts]
  have hdedents : ts'.map Token.word ++ (List.replicate (owed ++ [column]).length .dedent ++ [.eof])
      = .indent :: (lineStream (clauseLines (cases.map PassingCase.clause)) ++ [.dedent, .eof]) := by
    rw [List.length_append, List.length_singleton, List.replicate_succ', List.append_assoc,
      ← List.append_assoc, hstream]
    rfl
  rw [hdedents]
  simp

/-- A text that is one logical line closes the brackets that it opens. -/
theorem FillsLine.depth {subject : String} {words : List Word} (h : FillsLine v subject words) :
    (kindsOf words).foldl depthBehind 0 = 0 := by
  obtain ⟨t, ht, hk, hlt, -⟩ := h.ended
  obtain ⟨before, after, htokens⟩ := List.append_of_mem ht
  have hdepth := bracketsLeftOpen_of_newline htokens hk hlt
  have hsplit : before.map Token.word ++ t.word :: after.map Token.word
      = (.name "match" :: words ++ [.colon]) ++ .newline :: [.eof] := by
    rw [← List.map_cons, ← List.map_append, ← htokens, h.header]
    simp
  -- The line has one newline.
  have hword : t.word = .newline := by simp [Token.word, hk, Word.newline, TokenKind.isLayout]
  have hplain : Word.newline ∉ Word.name "match" :: words ++ [.colon] := by
    intro hmem
    rcases List.mem_append.1 hmem with hmem | hmem
    · rcases List.mem_cons.1 hmem with heq | hmem
      · cases heq
      · exact absurd (h.plain _ hmem) (by decide)
    · cases List.mem_singleton.1 hmem
  rw [hword] at hsplit
  have hbefore : .name "match" :: words ++ [.colon] = before.map Token.word :=
    ((List.append_cons_inj_of_notMem hplain (by decide)).1 hsplit.symm).1
  rw [bracketsLeftOpen_eq, ← hbefore, kindsOf_append, List.foldl_append] at hdepth
  exact hdepth

end Text

/-! ### Reading a match statement -/

section Parsing

variable {v : Version} {limit : Nat} {body : Parser (List Stmt)} {words rest : List Word}
  {clauses : List (ClauseKind × List Word × List Sketch)}

theorem Token.isWord_of_word {t : Token} {text : String} (h : t.word = .name text) :
    t.isWord text = true := by
  have hkind : t.kind = .identifier := congrArg Word.kind h
  have htext : t.text = text := Token.text_of_word h rfl
  rw [Token.isWord, hkind, htext]
  simp

/-- The cases of a match statement up to the dedent behind them. -/
theorem takes_moreCases (hbody : InnerBody v limit body)
    (hclauses : ∀ c ∈ clauses, c.1 = .case ∧ Header v c.2.1 ∧ c.2.2 ≠ [])
    (hread : ∀ c ∈ clauses, ∀ stmt ∈ c.2.2, stmt.Read v)
    (hlimit : (lineStream (clauseLines clauses) ++ .dedent :: rest).length ≤ limit)
    (done : List Clause) :
    Takes (lineStream (clauseLines clauses) ++ .dedent :: rest) rest
      (loop id (caseStep v body) done)
      fun read => unplacedClauses read = unplacedClauses done ++ clauseTrees clauses := by
  induction clauses generalizing done with
  | nil =>
    refine Takes.loop_finished (Takes.skipNewlines_bind TokenKind.noConfusion ?_)
    refine Takes.peek_bind fun token htoken => ?_
    have hkind : token.kind = .dedent := congrArg Word.kind htoken
    rw [hkind]
    exact Takes.advance_bind (.pure ⟨_, rfl, (List.append_nil _).symm⟩)
  | cons c clauses ih =>
    obtain ⟨kind, header, stmts⟩ := c
    obtain ⟨⟨rfl, hheader, hne⟩, hmore⟩ := List.forall_mem_cons.1 hclauses
    obtain ⟨hstmts, hread⟩ := List.forall_mem_cons.1 hread
    rw [clauseLines, stream_block hne] at hlimit ⊢
    refine Takes.loop_again (y := lineStream (clauseLines clauses) ++ .dedent :: rest)
      (S := fun read => ∃ clause, read = done ++ [clause]
        ∧ unplacedClauses [clause] = [.mk .case (bodyStmts stmts) .nowhere]) ?_ ?_ ?_
    · refine Takes.skipNewlines_bind TokenKind.noConfusion ?_
      -- The word `case` tells the loop to go round once more.
      refine Takes.peek_bind fun token htoken => ?_
      have hword := Token.isWord_of_word htoken
      have hkind : token.kind = .identifier := congrArg Word.kind htoken
      rw [hkind, hword]
      exact (takes_clause hbody hheader hstmts hlimit .case).bind fun clause hclause =>
        .pure ⟨_, rfl, clause, rfl, hclause⟩
    · simp only [List.length_append, List.length_cons]
      omega
    · rintro _ ⟨clause, rfl, hclause⟩
      have hlimit' : (lineStream (clauseLines clauses) ++ .dedent :: rest).length ≤ limit := by
        simp only [List.length_append, List.length_cons] at hlimit ⊢
        omega
      refine (ih hmore hread hlimit' (done ++ [clause])).weaken fun read h => ?_
      rw [h, unplacedClauses_append, hclause, List.append_assoc]
      rfl

/-- A match statement whose header ends where its line does. -/
theorem takes_matchStatement {w colon : Word} (hbody : InnerBody v limit body)
    (hheader : ∀ rest, Takes (words ++ colon :: rest) rest skipHeader fun _ => True)
    (hclauses : ∀ c ∈ clauses, c.1 = .case ∧ Header v c.2.1 ∧ c.2.2 ≠ [])
    (hread : ∀ c ∈ clauses, ∀ stmt ∈ c.2.2, stmt.Read v)
    (hlimit : (lineStream (clauseLines clauses) ++ .dedent :: rest).length ≤ limit) :
    Takes (w :: (words ++ colon :: .newline :: .indent ::
      (lineStream (clauseLines clauses) ++ .dedent :: rest))) rest (matchStatement v body)
      fun read => read.unplaced = .compound .match false (clauseTrees clauses) .nowhere := by
  refine Takes.next_bind fun word _ => (hheader _).bind fun _ _ => ?_
  have hblock : Takes (.newline :: .indent ::
      (lineStream (clauseLines clauses) ++ .dedent :: rest)) rest (matchBlock v body)
      fun read => unplacedClauses read = clauseTrees clauses := by
    refine Takes.skipNewline_bind rfl TokenKind.noConfusion ?_
    refine Takes.peek_bind fun token htoken => ?_
    have hkind : token.kind = .indent := congrArg Word.kind htoken
    rw [hkind]
    exact Takes.advance_bind (takes_moreCases hbody hclauses hread hlimit [])
  refine hblock.bind fun read hread => Takes.spanFrom_bind fun _ => .pure ?_
  rw [Stmt.unplaced, hread]

/-- The line ends with the colon before its newline. -/
theorem lineEndsWithColon_of_words {ts : List Token}
    (h : ts.map Token.word = words ++ .colon :: .newline :: rest)
    (hwords : ∀ w ∈ words, w.kind.isLayout = false) : lineEndsWithColon ts = true := by
  obtain ⟨front, back, rfl, hfront, hback⟩ := List.map_eq_append_iff.1 h
  obtain ⟨colon, back, rfl, hcolon, hback⟩ := List.map_eq_cons_iff.1 hback
  obtain ⟨newline, back, rfl, hnewline, -⟩ := List.map_eq_cons_iff.1 hback
  have hcolon : colon.kind = .operator .colon := congrArg Word.kind hcolon
  have hnewline : newline.kind = .newline := congrArg Word.kind hnewline
  have hline : ∀ t ∈ front ++ [colon], (!t.kind.isLineEnd) = true := by
    intro t ht
    rcases List.mem_append.1 ht with ht | ht
    · have hplain : t.kind.isLayout = false := hwords t.word (hfront ▸ List.mem_map_of_mem ht)
      generalize t.kind = k at hplain
      cases k <;> first | rfl | cases hplain
    · rw [List.mem_singleton.1 ht, hcolon]
      rfl
  rw [lineEndsWithColon, ← List.singleton_append, ← List.append_assoc,
    List.takeWhile_append_of_pos hline, List.takeWhile_cons_of_neg (by rw [hnewline]; decide)]
  simp [hcolon]

/-- Where a match statement begins. -/
theorem atMatch_of_words (hv : v.atLeast 3 10 = true) {s : ParserState}
    (h : s.ahead = .name "match" :: (words ++ .colon :: .newline :: rest))
    (hstarts : (kindAt words 0).startsSubject = true)
    (hwords : ∀ w ∈ words, w.kind.isLayout = false) : s.cursor.atMatch v = true := by
  have hne : words ≠ [] := by
    rintro rfl
    cases hstarts
  obtain ⟨w, words, rfl⟩ := List.exists_cons_of_ne_nil hne
  have hword : s.cursor.peek.isWord "match" = true := Token.isWord_of_word (s.word_peek h)
  have hsubject : (s.cursor.kindAt 1).startsSubject = true := by
    rw [s.kindAt_eq h]
    exact hstarts
  have hcolon : lineEndsWithColon s.cursor.after = true := by
    have hline : ∀ u ∈ Word.name "match" :: w :: words, u.kind.isLayout = false :=
      List.forall_mem_cons.2 ⟨rfl, hwords⟩
    have hafter : s.cursor.after.map Token.word
        = (.name "match" :: w :: words) ++ .colon :: .newline :: rest := h
    exact lineEndsWithColon_of_words hafter hline
  rw [Cursor.atMatch, hv, hword, hsubject, hcolon]
  rfl

/-- A match statement among other statements. -/
theorem takes_statement_match (hv : v.atLeast 3 10 = true) (hbody : InnerBody v limit body)
    (hheader : ∀ rest, Takes (words ++ .colon :: rest) rest skipHeader fun _ => True)
    (hstarts : (kindAt words 0).startsSubject = true)
    (hwords : ∀ w ∈ words, w.kind.isLayout = false)
    (hclauses : ∀ c ∈ clauses, c.1 = .case ∧ Header v c.2.1 ∧ c.2.2 ≠ [])
    (hread : ∀ c ∈ clauses, ∀ stmt ∈ c.2.2, stmt.Read v)
    (hlimit : (lineStream (clauseLines clauses) ++ .dedent :: rest).length ≤ limit) :
    Takes (.name "match" :: (words ++ .colon :: .newline :: .indent ::
      (lineStream (clauseLines clauses) ++ .dedent :: rest))) rest (statement v body)
      fun read => unplacedBody read = [.compound .match false (clauseTrees clauses) .nowhere] := by
  refine Takes.peek_bind fun token htoken => ?_
  have hkind : token.kind = .identifier := congrArg Word.kind htoken
  rw [hkind]
  have hsoft : v.hasSoftAsync = false := by
    revert hv
    cases v <;> decide
  refine Takes.look_bind (a := false) (fun s hs => ?_) ?_
  · rw [Cursor.atAsync, hsoft, s.kindAt_eq hs]
    rfl
  · refine Takes.look_bind (a := true) (fun s hs => ?_) ?_
    · exact atMatch_of_words hv hs hstarts hwords
    · exact Takes.map ((takes_matchStatement hbody hheader hclauses hread hlimit).weaken
        fun read hread => unplacedBody_singleton hread)

/-- A module of one statement. -/
theorem takes_moduleBody_single {trees : List Stmt}
    (hfirst : (kindAt words 0).isLayout = false)
    (h : Takes words [.eof] (statement v (indentedBody v)) fun read => unplacedBody read = trees)
    (hless : 1 < words.length) :
    Takes words [.eof] (moduleBody v) fun read => unplacedBody read = trees := by
  have hkind : ∀ {k : TokenKind}, k.isLayout = true → kindAt words 0 ≠ k := by
    rintro k hk rfl
    rw [hk] at hfirst
    cases hfirst
  have hitem : Takes words [.eof] (moduleItem v) fun read => unplacedBody read = trees := by
    refine Takes.peekKind_bind fun token htoken => ?_
    rw [htoken]
    split
    · next heq => exact absurd heq (hkind rfl)
    · next heq => exact absurd heq (hkind rfl)
    · exact h
  refine Takes.loop_again (y := [.eof]) (S := fun read => unplacedBody read = trees)
    (Takes.skipNewlines_bind (hkind rfl) (Takes.at?_false (hkind rfl) ?_)) hless fun done hdone => ?_
  · exact hitem.bind fun read hread => .pure ⟨_, rfl, hread⟩
  · refine Takes.loop_finished (Takes.skipNewlines_bind TokenKind.noConfusion ?_)
    exact Takes.at?_true rfl (.pure ⟨_, rfl, hdone⟩)

end Parsing

/-! ### Texts -/

/-- The statement that a match statement with such cases is. -/
def matchTree (cases : List PassingCase) : Stmt :=
  .compound .match false (cases.map fun _ => .mk .case [.simple .pass .nowhere] .nowhere) .nowhere

theorem clauseTrees_passing (cases : List PassingCase) :
    clauseTrees (cases.map PassingCase.clause)
      = cases.map fun _ => .mk .case [.simple .pass .nowhere] .nowhere := by
  induction cases with
  | nil => rfl
  | cons c cases ih =>
    rw [List.map_cons, PassingCase.clause, clauseTrees, ih]
    rfl

/-- A match statement whose subject fills the line is recognised, and read with all its cases, if
    the subject begins with a token that the lookahead knows, holds no lexical error, and has a
    colon outside of brackets for each lambda there and no other. -/
theorem FillsLine.parse_match {v : Version} (hv : v.atLeast 3 10 = true) {subject : String}
    {words : List Word} (h : FillsLine v subject words)
    (hstarts : (kindAt words 0).startsSubject = true)
    (hlexical : ∀ w ∈ words, ∀ cause, w.kind ≠ .error cause)
    (hlambdas : pendingLambdas 0 (outside (kindsOf words)) = some 0)
    {cases : List PassingCase} (hne : cases ≠ []) {column : Nat} (hcolumn : 0 < column)
    (hcases : ∀ c ∈ cases, c.Valid v column) :
    let tree := SyntaxTree.parse v (matchLine subject ++ casesText cases)
    unplacedBody tree.body = [matchTree cases] ∧ tree.errors = [] := by
  have hv' : v.atLeast 3 7 = true := by
    revert hv
    cases v <;> decide
  have hahead := h.tokenize_match hv' hne hcolumn hcases
  -- The header is passed over up to the colon behind the subject.
  have hgoesOn : ∀ w ∈ words, w.kind.goesOn = true := by
    intro w hw
    have hplain := h.plain w hw
    have herror := hlexical w hw
    generalize w.kind = k at hplain herror
    cases k <;> first | rfl | (cases hplain; done) | exact absurd rfl (herror _)
  have hheader : ∀ rest, Takes (words ++ .colon :: rest) rest skipHeader fun _ => True :=
    fun rest => takes_skipHeader_outside hgoesOn h.depth hlambdas
  have hclauses : ∀ c ∈ cases.map PassingCase.clause, c.1 = .case ∧ Header v c.2.1 ∧ c.2.2 ≠ [] := by
    refine List.forall_mem_map.2 fun c hc => ⟨rfl, ?_, List.cons_ne_nil _ _⟩
    exact ⟨.cons ((hcases c hc).name.free hv').separate .nil, .plain rfl⟩
  have hread : ∀ c ∈ cases.map PassingCase.clause, ∀ stmt ∈ c.2.2, stmt.Read v :=
    List.forall_mem_map.2 fun c _ => List.forall_mem_singleton.2 (Sketch.Valid.pass.read hv')
  have hstatement : Takes _ [.eof] (statement v (indentedBody v)) _ :=
    takes_statement_match hv (fun _ _ => rfl) hheader hstarts h.plain hclauses hread (Nat.le_refl _)
  have hless : 1 < (Word.name "match" :: (words ++ .colon :: .newline :: .indent ::
      (lineStream (clauseLines (cases.map PassingCase.clause)) ++ [.dedent, .eof]))).length := by
    simp only [List.length_cons, List.length_append]
    omega
  obtain ⟨-, herrors, hbody⟩ :=
    takes_moduleBody_single rfl hstatement hless (Parser.start v _) hahead
  exact ⟨hbody.trans (by rw [clauseTrees_passing]; rfl), herrors⟩

/-- A subject with a lambda, a line feed in brackets, and two cases. -/
theorem parse_match_lambda :
    let subject := "f(x) + (lambda y: [y,\n1])(2) if z else -w"
    let cases : List PassingCase := [⟨"a", " ", "  "⟩, ⟨"_", "\t\x0c ", " \t"⟩]
    let tree := SyntaxTree.parse .v312 (matchLine subject ++ casesText cases)
    unplacedBody tree.body = [matchTree cases] ∧ tree.errors = [] := by
  intro subject cases
  let words := ((tokenize .v312 subject).map Token.word).dropLast.dropLast
  have hfills : FillsLine .v312 subject words := by
    refine ⟨by decide +kernel, by decide +kernel, by decide +kernel, ?_⟩
    unfold Lexer.EndsAt
    decide +kernel
  have hlexical : ∀ w ∈ words, ∀ cause, w.kind ≠ .error cause := by
    have hall : (words.all fun w => w.kind.goesOn) = true := by decide +kernel
    intro w hw cause heq
    have hgoesOn := List.all_eq_true.1 hall w hw
    rw [heq] at hgoesOn
    cases hgoesOn
  have hcases : ∀ c ∈ cases, c.Valid .v312 1 := by
    refine List.forall_mem_cons.2 ⟨?_, List.forall_mem_singleton.2 ?_⟩
    · refine ⟨by decide +kernel, ⟨?_, rfl⟩, 2, by decide, ⟨?_, rfl⟩⟩
      all_goals exact List.all_eq_true.1 rfl
    · refine ⟨by decide +kernel, ⟨?_, rfl⟩, 8, by decide, ⟨?_, rfl⟩⟩
      all_goals exact List.all_eq_true.1 rfl
  exact FillsLine.parse_match rfl hfills (by decide +kernel) hlexical (by decide +kernel)
    (List.cons_ne_nil _ _) Nat.zero_lt_one hcases

/-- The text is one expression: it is read to its end, and nothing is reported. -/
def IsExpression (v : Version) (text : String) : Prop :=
  let read := Parser.expression v (Parser.start v text)
  read.2.errors = [] ∧ read.2.ahead.map Word.kind = [.newline, .eof]

instance (v : Version) (text : String) : Decidable (IsExpression v text) :=
  inferInstanceAs (Decidable (_ ∧ _))

/-- The text is one expression, and a match statement with it for a subject has errors. -/
def IsUnrecognised (v : Version) (subject : String) : Prop :=
  IsExpression v subject
    ∧ (SyntaxTree.parse v (matchLine subject ++ casesText [⟨"a", " ", "  "⟩])).errors ≠ []

instance (v : Version) (subject : String) : Decidable (IsUnrecognised v subject) :=
  inferInstanceAs (Decidable (_ ∧ _))

/-- Three subjects that are expressions: the first begins with a token that the lookahead does not
    know, in the second a lambda has no colon of its own, and in the third the header reports what
    the lambda passes over. -/
theorem match_not_recognised :
    IsUnrecognised .v310 "~x" ∧ IsUnrecognised .v310 "x + lambda lambda: 1"
      ∧ IsUnrecognised .v310 "x + lambda $: 1" := by
  decide +kernel

end PyAtlas
