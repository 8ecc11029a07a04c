import PyAtlas.Proofs.Syntax.SketchHeaders

/-!
# Parsing gives back the statements that were written

The lexer decides where a block ends and the parser decides whose block it is. Here both meet:
each statement is read as its tree wherever it stands, up to the dedent that ends its last
block, by induction on the statement; a body is read statement by statement up to its own
dedent. Bodies are parsed on fewer tokens than the statements that hold them, so each proof
says for how many tokens the parser of the bodies is the real one.

## Key results
- `Sketch.Valid.read`: a statement is read as its tree.
- `takes_indentedBody`: a body is read up to its dedent.
- `Sketch.parse_written`: the syntax tree of a text is that of the statements written in it.
-/

namespace PyAtlas

open PyAtlas.Parser

variable {v : Version} {limit : Nat} {body : Parser (List Stmt)} {rest : List Word}
  {stmt : Sketch} {stmts : List Sketch}

/-! ### Lines and what is beneath them -/

theorem stream_alone (words : List Word) :
    lineStream [.mk words []] ++ rest = words ++ .newline :: rest := by
  simp [lineStream, LineTree.stream]

theorem lineStream_append (lines lines' : List LineTree) :
    lineStream (lines ++ lines') = lineStream lines ++ lineStream lines' := by
  induction lines with
  | nil => rfl
  | cons line lines ih => rw [List.cons_append, lineStream, lineStream, ih, List.append_assoc]

theorem Sketch.lines_ne_nil (stmt : Sketch) : stmt.lines ≠ [] := by
  cases stmt <;> exact List.cons_ne_nil _ _

theorem Sketch.lineStream_pos (stmt : Sketch) : 0 < (lineStream stmt.lines).length := by
  obtain ⟨⟨words, beneath⟩, lines, heq⟩ := List.exists_cons_of_ne_nil stmt.lines_ne_nil
  rw [heq, lineStream, LineTree.stream]
  simp only [List.length_append, List.length_cons]
  omega

/-- The words of a body between its indent and its dedent. -/
def bodyWords (stmts : List Sketch) : List Word := lineStream (bodyLines stmts)

theorem bodyWords_cons (stmt : Sketch) (stmts : List Sketch) :
    bodyWords (stmt :: stmts) = lineStream stmt.lines ++ bodyWords stmts :=
  lineStream_append _ _

/-- A line with a body beneath it, and what follows. -/
theorem stream_block (hne : stmts ≠ []) (words : List Word) (lines : List LineTree) :
    lineStream (.mk words (bodyLines stmts) :: lines) ++ rest
      = words ++ .newline :: .indent ::
        (bodyWords stmts ++ .dedent :: (lineStream lines ++ rest)) := by
  obtain ⟨stmt, stmts, rfl⟩ := List.exists_cons_of_ne_nil hne
  have hnonempty : (bodyLines (stmt :: stmts)).isEmpty = false := by
    rw [List.isEmpty_eq_false_iff, bodyLines]
    exact List.append_ne_nil_of_left_ne_nil stmt.lines_ne_nil _
  rw [lineStream, LineTree.stream, hnonempty, bodyWords]
  simp

/-! ### The words around a statement -/

/-- Kinds of words that begin a statement. -/
def TokenKind.opensStatement : TokenKind → Bool
  | .identifier | .keyword .pass | .keyword .import | .keyword .from | .keyword .classWord
  | .keyword .define | .keyword .async | .keyword .if | .keyword .while | .keyword .for
  | .keyword .try | .keyword .with => true
  | _ => false

/-- Kinds of words behind which a statement goes on with another clause. -/
def TokenKind.opensClause : TokenKind → Bool
  | .keyword .elif | .keyword .else | .keyword .except | .keyword .finally => true
  | _ => false

theorem Sketch.opensStatement (stmt : Sketch) (rest : List Word) :
    (kindAt (lineStream stmt.lines ++ rest) 0).opensStatement = true := by
  cases stmt with
  | functionDef isAsync _ _ _ _ => cases isAsync <;> rfl
  | compound kind _ _ _ => cases kind <;> rfl
  | _ => rfl

theorem TokenKind.opensClause_of_opensStatement {k : TokenKind} (h : k.opensStatement = true) :
    k.opensClause = false := by
  cases k with
  | keyword word => cases word <;> first | rfl | cases h
  | _ => rfl

theorem furtherClause?_eq_none {k : TokenKind} (h : k.opensClause = false) (kind : CompoundKind) :
    CompoundKind.furtherClause? kind k = none := by
  cases k with
  | keyword word => cases word <;> first | (cases kind <;> rfl) | cases h
  | _ => cases kind <;> rfl

theorem furtherClause?_of_admits {kind : CompoundKind} {clause : ClauseKind}
    (h : kind.admits clause = true) :
    CompoundKind.furtherClause? kind clause.word.kind = some clause := by
  cases kind <;> cases clause <;> first | rfl | cases h

/-! ### Parsers of the bodies in a body -/

/-- A parser of indented bodies on what is shorter than `limit`. -/
def InnerBody (v : Version) (limit : Nat) (body : Parser (List Stmt)) : Prop :=
  ∀ s : ParserState, s.remaining < limit → body s = indentedBody v s

/-- Parsing one body parses the bodies in it the same way. -/
theorem exists_innerBody (v : Version) (s : ParserState) :
    ∃ body, InnerBody v s.remaining body ∧ indentedBody v s = bodyWith v body s := by
  refine ⟨_, ?_, by rw [indentedBody]⟩
  intro t ht
  exact nested_of_lt ht

/-- A statement is read as its tree wherever no further clause follows. -/
def Sketch.Read (v : Version) (stmt : Sketch) : Prop :=
  ∀ (body : Parser (List Stmt)) (limit : Nat) (rest : List Word), InnerBody v limit body →
    (lineStream stmt.lines ++ rest).length ≤ limit → (kindAt rest 0).opensClause = false →
    Takes (lineStream stmt.lines ++ rest) rest (statement v body)
      fun read => unplacedBody read = [stmt.stmt]

/-! ### Bodies -/

section Bodies

/-- Behind a statement of a body comes another one or what ends the body. -/
theorem opensClause_bodyWords (stmts : List Sketch) {ending : List Word}
    (h : (kindAt ending 0).opensClause = false) :
    (kindAt (bodyWords stmts ++ ending) 0).opensClause = false := by
  cases stmts with
  | nil => exact h
  | cons stmt stmts =>
    rw [bodyWords_cons, List.append_assoc]
    exact TokenKind.opensClause_of_opensStatement (stmt.opensStatement _)

/-- Where a statement begins, neither the body nor the module ends, and no block begins. -/
theorem ne_of_opensStatement {k k' : TokenKind} (h : k.opensStatement = true)
    (h' : k'.opensStatement = false) : k ≠ k' := by
  rintro rfl
  exact absurd (h.symm.trans h') Bool.false_ne_true.symm

/-- A loop that reads one statement after the other up to an ending of its own. -/
theorem takes_statementLoop {step : List Stmt → Parser (LoopStep (List Stmt) (List Stmt))}
    {ending : List Word} (hending : (kindAt ending 0).opensClause = false)
    (hagain : ∀ stmt ∈ stmts, ∀ (rest : List Word) (done : List Stmt),
      (lineStream stmt.lines ++ rest).length ≤ limit → (kindAt rest 0).opensClause = false →
      Takes (lineStream stmt.lines ++ rest) rest (step done)
        fun r => ∃ more, r = .again (done ++ more) ∧ unplacedBody more = [stmt.stmt])
    (hfinished : ∀ done, Takes ending rest (step done) fun r => r = .finished done)
    (hlimit : (bodyWords stmts ++ ending).length ≤ limit) (done : List Stmt) :
    Takes (bodyWords stmts ++ ending) rest (loop id step done)
      fun read => unplacedBody read = unplacedBody done ++ bodyStmts stmts := by
  induction stmts generalizing done with
  | nil =>
    refine Takes.loop_finished ((hfinished done).weaken ?_)
    rintro _ rfl
    exact ⟨done, rfl, (List.append_nil _).symm⟩
  | cons stmt stmts ih =>
    obtain ⟨hstmt, hstmts⟩ := List.forall_mem_cons.1 hagain
    rw [bodyWords_cons, List.append_assoc] at hlimit ⊢
    -- A statement has words, so that the loop goes round with fewer of them.
    have hless := stmt.lineStream_pos
    have hread :=
      hstmt (bodyWords stmts ++ ending) done hlimit (opensClause_bodyWords stmts hending)
    rw [List.length_append] at hlimit
    refine Takes.loop_again (S := fun read => ∃ more, read = done ++ more
      ∧ unplacedBody more = [stmt.stmt]) (hread.weaken ?_) ?_ ?_
    · rintro _ ⟨more, rfl, hmore⟩
      exact ⟨_, rfl, more, rfl, hmore⟩
    · simp only [List.length_append]
      omega
    · rintro _ ⟨more, rfl, hmore⟩
      refine (ih hstmts (by omega) (done ++ more)).weaken fun read hread => ?_
      rw [hread, unplacedBody_append, hmore, bodyStmts, List.append_assoc]
      rfl

/-- The statements of a body up to its dedent. -/
theorem takes_moreStatements (hbody : InnerBody v limit body) (hstmts : ∀ stmt ∈ stmts, stmt.Read v)
    (hlimit : (bodyWords stmts ++ .dedent :: rest).length ≤ limit) :
    Takes (bodyWords stmts ++ .dedent :: rest) rest (bodyWith v body)
      fun read => unplacedBody read = bodyStmts stmts := by
  refine takes_statementLoop rfl (fun stmt hstmt rest done hlimit hrest => ?_) (fun done => ?_)
    hlimit []
  · have hopens := stmt.opensStatement rest
    refine Takes.skipNewlines_bind (ne_of_opensStatement hopens rfl) ?_
    refine Takes.peekKind_bind fun token hkind => ?_
    rw [hkind]
    split
    · next heq => exact absurd heq (ne_of_opensStatement hopens rfl)
    · next heq => exact absurd heq (ne_of_opensStatement hopens rfl)
    · next heq => exact absurd heq (ne_of_opensStatement hopens rfl)
    · exact (hstmts stmt hstmt body limit rest hbody hlimit hrest).bind fun more hmore =>
        .pure ⟨more, rfl, hmore⟩
  · refine Takes.skipNewlines_bind TokenKind.noConfusion ?_
    refine Takes.peek_bind fun token htoken => ?_
    have hkind : token.kind = .dedent := congrArg Word.kind htoken
    rw [hkind]
    exact Takes.advance_bind (.pure rfl)

/-- A body is read up to its dedent. -/
theorem takes_indentedBody (hstmts : ∀ stmt ∈ stmts, stmt.Read v) :
    Takes (bodyWords stmts ++ .dedent :: rest) rest (indentedBody v)
      fun read => unplacedBody read = bodyStmts stmts := by
  intro s hs
  obtain ⟨body, hbody, heq⟩ := exists_innerBody v s
  have hlimit : (bodyWords stmts ++ .dedent :: rest).length ≤ s.remaining :=
    Nat.le_of_eq (by rw [s.remaining_eq, hs])
  rw [heq]
  exact takes_moreStatements hbody hstmts hlimit s hs

/-- The block behind a header. -/
theorem takes_block (hbody : InnerBody v limit body) (hstmts : ∀ stmt ∈ stmts, stmt.Read v)
    (hlimit : (bodyWords stmts ++ .dedent :: rest).length < limit) :
    Takes (.newline :: .indent :: (bodyWords stmts ++ .dedent :: rest)) rest (block v body)
      fun read => unplacedBody read = bodyStmts stmts := by
  refine Takes.kind_bind (Takes.skipNewline_bind rfl TokenKind.noConfusion ?_)
  refine Takes.peek_bind fun token htoken => ?_
  have hkind : token.kind = .indent := congrArg Word.kind htoken
  rw [hkind]
  refine Takes.advance_bind fun s hs => ?_
  have hremaining : s.remaining < limit := by rwa [s.remaining_eq, hs]
  rw [hbody s hremaining]
  exact takes_indentedBody hstmts s hs

end Bodies

/-! ### Control flow -/

section Clauses

variable {kind : ClauseKind} {header : List Word}

/-- A clause and its body. -/
theorem takes_clause (hbody : InnerBody v limit body) (hheader : Header v header)
    (hstmts : ∀ stmt ∈ stmts, stmt.Read v)
    (hlimit : (kind.header header ++ .newline :: .indent ::
      (bodyWords stmts ++ .dedent :: rest)).length ≤ limit) (kind' : ClauseKind) :
    Takes (kind.header header ++ .newline :: .indent :: (bodyWords stmts ++ .dedent :: rest))
      rest (clause v body kind')
      fun read => unplacedClauses [read] = [.mk kind' (bodyStmts stmts) .nowhere] := by
  have hsplit : kind.header header ++ .newline :: .indent :: (bodyWords stmts ++ .dedent :: rest)
      = kind.word :: (header ++ .colon :: .newline :: .indent ::
        (bodyWords stmts ++ .dedent :: rest)) := by
    simp [ClauseKind.header]
  rw [hsplit] at hlimit ⊢
  have hless : (bodyWords stmts ++ .dedent :: rest).length < limit := by
    simp only [List.length_cons, List.length_append] at hlimit ⊢
    omega
  refine Takes.next_bind fun word _ => (takes_skipHeader hheader).bind fun _ _ => ?_
  refine (takes_block hbody hstmts hless).bind fun read hread => ?_
  refine Takes.spanFrom_bind fun _ => .pure ?_
  rw [unplacedClauses, hread]
  rfl

/-- The clauses of a statement behind the first one. -/
theorem takes_moreClauses {compound : CompoundKind} (hbody : InnerBody v limit body)
    {clauses : List (ClauseKind × List Word × List Sketch)}
    (hclauses : ∀ c ∈ clauses, compound.admits c.1 = true ∧ Header v c.2.1 ∧ c.2.2 ≠ [])
    (hread : ∀ c ∈ clauses, ∀ stmt ∈ c.2.2, stmt.Read v)
    (hlimit : (lineStream (clauseLines clauses) ++ rest).length ≤ limit)
    (hrest : (kindAt rest 0).opensClause = false) (done : List Clause) :
    Takes (lineStream (clauseLines clauses) ++ rest) rest (moreClauses v body compound done)
      fun read => unplacedClauses read = unplacedClauses done ++ clauseTrees clauses := by
  induction clauses generalizing done with
  | nil =>
    refine Takes.loop_finished (Takes.look_bind (a := none) (fun s hs => ?_) ?_)
    · rw [Cursor.kind, s.kindAt_eq hs]
      exact furtherClause?_eq_none hrest compound
    · exact .pure ⟨_, rfl, (List.append_nil _).symm⟩
  | cons c clauses ih =>
    obtain ⟨kind, header, stmts⟩ := c
    -- The word of the clause tells the loop to go round once more.
    obtain ⟨⟨hadmits, hheader, hne⟩, hclauses⟩ := List.forall_mem_cons.1 hclauses
    obtain ⟨hstmts, hread⟩ := List.forall_mem_cons.1 hread
    rw [clauseLines, stream_block hne] at hlimit ⊢
    refine Takes.loop_again (y := lineStream (clauseLines clauses) ++ rest)
      (S := fun read => ∃ clause, read = done ++ [clause]
        ∧ unplacedClauses [clause] = [.mk kind (bodyStmts stmts) .nowhere])
      (Takes.look_bind (a := some kind) (fun s hs => ?_) ?_) ?_ ?_
    · rw [s.kind_of_ahead hs]
      exact furtherClause?_of_admits hadmits
    · exact (takes_clause hbody hheader hstmts hlimit kind).bind fun clause hclause =>
        .pure ⟨_, rfl, clause, rfl, hclause⟩
    · simp only [List.length_append, List.length_cons]
      omega
    · rintro _ ⟨clause, rfl, hclause⟩
      have hlimit' : (lineStream (clauseLines clauses) ++ rest).length ≤ limit := by
        simp only [List.length_append, List.length_cons] at hlimit ⊢
        omega
      refine (ih hclauses hread hlimit' (done ++ [clause])).weaken fun read h => ?_
      rw [h, unplacedClauses_append, hclause, List.append_assoc]
      rfl

/-- A control-flow statement. -/
theorem takes_compound {compound : CompoundKind} (hbody : InnerBody v limit body)
    (hheader : Header v header) (hne : stmts ≠ []) (hstmts : ∀ stmt ∈ stmts, stmt.Read v)
    {clauses : List (ClauseKind × List Word × List Sketch)}
    (hclauses : ∀ c ∈ clauses, compound.admits c.1 = true ∧ Header v c.2.1 ∧ c.2.2 ≠ [])
    (hread : ∀ c ∈ clauses, ∀ stmt ∈ c.2.2, stmt.Read v)
    (hlimit : (lineStream (Sketch.compound compound header stmts clauses).lines ++ rest).length
      ≤ limit)
    (hrest : (kindAt rest 0).opensClause = false) (start : Span) :
    Takes (lineStream (Sketch.compound compound header stmts clauses).lines ++ rest) rest
      (compoundStatement v body compound false start)
      fun read => read.unplaced = (Sketch.compound compound header stmts clauses).stmt := by
  rw [Sketch.lines, stream_block hne] at hlimit ⊢
  refine (takes_clause hbody hheader hstmts hlimit _).bind fun first hfirst => ?_
  have hlimit' : (lineStream (clauseLines clauses) ++ rest).length ≤ limit := by
    simp only [List.length_append, List.length_cons] at hlimit ⊢
    omega
  refine (takes_moreClauses hbody hclauses hread hlimit' hrest [first]).bind fun read h => ?_
  refine Takes.spanFrom_bind fun _ => .pure ?_
  rw [Stmt.unplaced, h, hfirst]
  rfl

end Clauses

/-! ### Definitions -/

section Definitions

variable {name : String}

/-- A class and its body. -/
theorem takes_class {arguments : Option (List (CallForm × Term))}
    (harguments : ∀ as ∈ arguments, ∀ a ∈ as, a.1.Valid v ∧ a.2.Valid v)
    (hbody : InnerBody v limit body) (hne : stmts ≠ []) (hstmts : ∀ stmt ∈ stmts, stmt.Read v)
    (hlimit : (lineStream (Sketch.classDef name arguments stmts).lines ++ rest).length ≤ limit) :
    Takes (lineStream (Sketch.classDef name arguments stmts).lines ++ rest) rest
      (classStatement v body [] none)
      fun read => read.unplaced = (Sketch.classDef name arguments stmts).stmt := by
  have hsplit : lineStream (Sketch.classDef name arguments stmts).lines ++ rest
      = Keyword.classWord.word :: .name name :: (classArgumentWords arguments
        ++ .colon :: .newline :: .indent :: (bodyWords stmts ++ .dedent :: rest)) := by
    rw [Sketch.lines, stream_block hne]
    simp [lineStream]
  rw [hsplit] at hlimit ⊢
  have hless : (bodyWords stmts ++ .dedent :: rest).length < limit := by
    simp only [List.length_append, List.length_cons] at hlimit ⊢
    omega
  refine Takes.next_bind fun word _ => Takes.expectIdentifier_bind rfl fun ident hident => ?_
  refine (takes_classArguments harguments fun heq => by cases heq).bind fun as has => ?_
  refine takes_expectColon.bind fun _ _ => ?_
  refine (takes_block hbody hstmts hless).bind fun read hread => ?_
  refine Takes.spanFrom_bind fun _ => .pure ?_
  rw [Stmt.unplaced, ClassHeader.unplaced, has, hread, Identifier.unplaced, hident]
  rfl

/-- A function and its body, behind the word `async` if there is one. -/
theorem takes_function (name : String) (hv : v.atLeast 3 7 = true)
    {parameters : List SketchParameter}
    {returns : Option Term} (hparameters : ∀ p ∈ parameters, p.Valid v)
    (hreturns : ValidOption v returns) (hbody : InnerBody v limit body)
    (hstmts : ∀ stmt ∈ stmts, stmt.Read v)
    (hlimit : (bodyWords stmts ++ .dedent :: rest).length < limit) (start : Option Span)
    (isAsync : Bool) :
    Takes (Keyword.define.word :: .name name :: .lParen :: (parameterWords parameters ++ .rParen ::
        (optionWords .arrow returns ++ .colon :: .newline :: .indent ::
          (bodyWords stmts ++ .dedent :: rest)))) rest
      (functionStatement v body [] start isAsync)
      fun read => read.unplaced
        = (Sketch.functionDef isAsync name parameters returns stmts).stmt := by
  refine Takes.next_bind fun word _ => Takes.expectIdentifier_bind rfl fun ident hident => ?_
  refine (takes_parameterList hv hparameters).bind fun ps hps => ?_
  refine (takes_expressionAfter .arrow hreturns rfl fun heq => by cases heq).bind
    fun e he => ?_
  refine takes_expectColon.bind fun _ _ => ?_
  refine (takes_block hbody hstmts hlimit).bind fun read hread => ?_
  refine Takes.spanFrom_bind fun _ => .pure ?_
  rw [Stmt.unplaced, FunctionHeader.unplaced, hps, he, hread, Identifier.unplaced, hident]
  rfl

end Definitions

/-! ### Statements -/

section Statements

variable {w : Word} {words : List Word}

/-- Where `async` begins a function, the function is read behind it. -/
theorem takes_statement_async {Q : Stmt → Prop}
    (h : ∀ start, Takes (Keyword.define.word :: words) rest
      (functionStatement v body [] (some start) true) Q) :
    Takes (Keyword.async.word :: Keyword.define.word :: words) rest (statement v body)
      fun read => ∃ stmt, read = [stmt] ∧ Q stmt := by
  refine Takes.peek_bind fun token htoken => ?_
  have hkind : token.kind = .keyword .async := congrArg Word.kind htoken
  rw [hkind]
  refine Takes.look_bind (a := true) (fun s hs => ?_) ?_
  · rw [Cursor.atAsync, s.kindAt_eq hs, s.kindAt_eq hs]
    rfl
  · refine Takes.map (Takes.next_bind fun word _ => Takes.peek_bind fun token htoken => ?_)
    have hkind : token.kind = .keyword .define := congrArg Word.kind htoken
    rw [hkind]
    exact (h _).weaken fun stmt hstmt => ⟨stmt, rfl, hstmt⟩

theorem unplacedBody_singleton {tree read : Stmt} (h : read.unplaced = tree) :
    unplacedBody (List.singleton read) = [tree] := by
  rw [List.singleton, unplacedBody, h, unplacedBody]

/-- A function is read as its tree, whether or not the word `async` stands before it. -/
theorem Sketch.read_function (hv : v.atLeast 3 7 = true) {isAsync : Bool} {name : String}
    {parameters : List SketchParameter} {returns : Option Term} {stmts : List Sketch}
    (hparameters : ∀ p ∈ parameters, p.Valid v) (hreturns : ValidOption v returns)
    (hne : stmts ≠ []) (hstmts : ∀ stmt ∈ stmts, stmt.Read v) :
    (Sketch.functionDef isAsync name parameters returns stmts).Read v := by
  intro body limit rest hbody hlimit _
  have hsplit : lineStream (Sketch.functionDef isAsync name parameters returns stmts).lines ++ rest
      = (if isAsync then [Keyword.async.word] else []) ++ (Keyword.define.word :: .name name
        :: .lParen :: (parameterWords parameters ++ .rParen :: (optionWords .arrow returns
          ++ .colon :: .newline :: .indent :: (bodyWords stmts ++ .dedent :: rest)))) := by
    rw [Sketch.lines, stream_block hne]
    simp [functionWords, lineStream]
  rw [hsplit] at hlimit ⊢
  have hless : (bodyWords stmts ++ .dedent :: rest).length < limit := by
    simp only [List.length_append, List.length_cons] at hlimit ⊢
    omega
  have hfunction := takes_function name hv hparameters hreturns hbody hstmts hless
  cases isAsync with
  | true =>
    refine (takes_statement_async fun start => hfunction (some start) true).weaken ?_
    rintro _ ⟨read, rfl, hread⟩
    exact unplacedBody_singleton hread
  | false =>
    refine Takes.peek_bind fun token htoken => ?_
    have hkind : token.kind = .keyword .define := congrArg Word.kind htoken
    rw [hkind]
    exact Takes.map ((hfunction none false).weaken fun _ => unplacedBody_singleton)

/-- A statement is read as its tree. -/
theorem Sketch.Valid.read (hv : v.atLeast 3 7 = true) (h : stmt.Valid v) : stmt.Read v := by
  induction h with
  | pass =>
    intro body limit rest _ _ _
    rw [Sketch.lines, stream_alone]
    exact takes_smallLine hv rfl (fun heq => by cases heq) takes_pass
  | assign htarget hvalue =>
    intro body limit rest _ _ _
    rw [Sketch.lines, stream_alone]
    exact takes_smallLine hv rfl (fun _ => rfl) (takes_assign htarget hvalue)
  | @importModules first more _ =>
    intro body limit rest _ _ _
    rw [Sketch.lines, stream_alone]
    refine takes_smallLine hv rfl (fun heq => by cases heq) ?_
    simp only [List.append_eq, List.cons_append, List.append_assoc]
    exact takes_import first more
  | @importFrom level module names hlevel _ _ =>
    intro body limit rest _ _ _
    rw [Sketch.lines, stream_alone]
    refine takes_smallLine hv rfl (fun heq => by cases heq) ?_
    simp only [List.append_eq, List.cons_append, List.append_assoc]
    exact takes_importFrom names hlevel
  | classDef _ harguments hne _ ih =>
    intro body limit rest hbody hlimit _
    refine Takes.peekKind_bind fun token hkind => ?_
    rw [hkind]
    exact Takes.map ((takes_class harguments hbody hne ih hlimit).weaken
      fun _ => unplacedBody_singleton)
  | functionDef _ hparameters hreturns hne _ ih =>
    exact read_function hv hparameters hreturns hne ih
  | @compound kind _ _ _ hkind hheader hne _ hclauses _ ih ihc =>
    intro body limit rest hbody hlimit hrest
    have hcompound := takes_compound hbody hheader hne ih hclauses ihc hlimit hrest
    refine Takes.peekKind_bind fun token hkind' => ?_
    have hstatement := (hcompound token.span).weaken fun _ => unplacedBody_singleton
    rw [hkind']
    cases kind with
    | «match» => exact absurd rfl hkind
    | _ => exact Takes.map hstatement

end Statements

/-! ### Modules -/

/-- The statements of a module. -/
theorem takes_moduleBody (hstmts : ∀ stmt ∈ stmts, stmt.Read v) :
    Takes (bodyWords stmts ++ [.eof]) [.eof] (moduleBody v)
      fun read => unplacedBody read = bodyStmts stmts := by
  refine takes_statementLoop rfl (fun stmt hstmt rest done hlimit hrest => ?_) (fun done => ?_)
    (Nat.le_refl _) []
  · have hopens := stmt.opensStatement rest
    have hinner : InnerBody v (lineStream stmt.lines ++ rest).length (indentedBody v) :=
      fun _ _ => rfl
    have hitem : Takes (lineStream stmt.lines ++ rest) rest (moduleItem v)
        fun read => unplacedBody read = [stmt.stmt] := by
      refine Takes.peekKind_bind fun token hkind => ?_
      rw [hkind]
      split
      · next heq => exact absurd heq (ne_of_opensStatement hopens rfl)
      · next heq => exact absurd heq (ne_of_opensStatement hopens rfl)
      · exact hstmts stmt hstmt _ _ rest hinner (Nat.le_refl _) hrest
    refine Takes.skipNewlines_bind (ne_of_opensStatement hopens rfl) ?_
    refine Takes.at?_false (ne_of_opensStatement hopens rfl) ?_
    exact hitem.bind fun more hmore => .pure ⟨more, rfl, hmore⟩
  · exact Takes.skipNewlines_bind TokenKind.noConfusion (Takes.at?_true rfl (.pure rfl))

/-- Parsing what was written gives back what was written, however it was laid out: the tree of
    a text comes back with places added, and nothing is reported. -/
theorem Sketch.parse_written {text : String} (hv : v.atLeast 3 7 = true)
    (hstmts : ∀ stmt ∈ stmts, stmt.Valid v) (h : Written 0 (bodyLines stmts) text.toList) :
    unplacedBody (SyntaxTree.parse v text).body = bodyStmts stmts
      ∧ (SyntaxTree.parse v text).errors = [] := by
  have hahead : (Parser.start v text).ahead = bodyWords stmts ++ [.eof] :=
    tokenize_written h (readable_bodyLines fun stmt hstmt => (hstmts stmt hstmt).readable hv)
  obtain ⟨-, herrors, hbody⟩ :=
    takes_moduleBody (fun stmt hstmt => (hstmts stmt hstmt).read hv) _ hahead
  exact ⟨hbody, herrors⟩

/-- Blocks at different columns, a comment at a column of its own, and a clause. -/
theorem parse_written_class :
    let stmts : List Sketch := [
      .classDef "A" (some [(.positional, .member (.name "b") "C")]) [
        .functionDef true "f" [.named .none "x" none (some (.int "1"))] none [
          .compound .if [.name "x"] [.pass] [(.else, [], [.assign "y" ⟨.keyword .none, "None"⟩])]]],
      .importFrom 1 none (.names ⟨"p", some "q"⟩ [])]
    let text := "class A ( b . C ) :\n    # members\n  async def f ( x = 1 ) :\n\n"
      ++ "      if x :\n       pass\n      else :\n          y = None\nfrom . import p as q\n"
    unplacedBody (SyntaxTree.parse .v310 text).body = bodyStmts stmts
      ∧ (SyntaxTree.parse .v310 text).errors = [] := by
  intro stmts text
  have hname : ∀ text ∈ ["A", "b", "C", "f", "x", "y", "p", "q"], FreeName .v310 text := by
    decide +kernel
  have hterm : (Term.member (.name "b") "C").Valid .v310 :=
    .member (.name (hname "b" (by decide))) (hname "C" (by decide))
  have hassign : (Sketch.assign "y" ⟨.keyword .none, "None"⟩).Valid .v310 :=
    .assign (hname "y" (by decide)) ⟨separate_keyword rfl rfl (by decide), rfl⟩
  have hchoice : (Sketch.compound .if [.name "x"] [.pass]
      [(.else, [], [.assign "y" ⟨.keyword .none, "None"⟩])]).Valid .v310 := by
    refine .compound (by decide) ⟨.cons (hname "x" (by decide)).separate .nil, .plain rfl⟩
      (List.cons_ne_nil _ _) (List.forall_mem_singleton.2 .pass) ?_ ?_
    · exact List.forall_mem_singleton.2 ⟨rfl, ⟨.nil, .nil⟩, List.cons_ne_nil _ _⟩
    · exact List.forall_mem_singleton.2 (List.forall_mem_singleton.2 hassign)
  have hvalid : ∀ stmt ∈ stmts, stmt.Valid .v310 := by
    refine List.forall_mem_cons.2 ⟨?_, List.forall_mem_singleton.2 ?_⟩
    · refine .classDef (hname "A" (by decide)) ?_ (List.cons_ne_nil _ _) ?_
      · rintro _ ⟨⟩
        exact List.forall_mem_singleton.2 ⟨trivial, hterm⟩
      · refine List.forall_mem_singleton.2 (.functionDef (hname "f" (by decide)) ?_ ?_
          (List.cons_ne_nil _ _) (List.forall_mem_singleton.2 hchoice))
        · refine List.forall_mem_singleton.2 ⟨hname "x" (by decide), nofun, ?_⟩
          rintro _ ⟨⟩
          exact .int ⟨by decide, List.all_eq_true.1 (by decide)⟩
        · exact nofun
    · refine .importFrom (fun _ => Nat.zero_lt_one) nofun ?_
      refine List.forall_mem_singleton.2 ⟨hname "p" (by decide), ?_⟩
      rintro _ ⟨⟩
      exact hname "q" (by decide)
  have hcomment : Wordless "    # members".toList :=
    ⟨spaces 4, "# members".toList, by decide, List.all_eq_true.1 (by decide), .inr ⟨_, rfl, by decide⟩⟩
  have hblank : Wordless [] := ⟨[], [], rfl, nofun, .inl rfl⟩
  have helse : Written 6 (clauseLines [(.else, [], [.assign "y" ⟨.keyword .none, "None"⟩])]) _ :=
    @Written.block 6 4 _ _ _ _ _ (by decide) (List.cons_ne_nil _ _) (.line .nil) .nil
  have hwritten : Written 0 (bodyLines stmts) _ :=
    @Written.block 0 2 _ _ _ _ _ (by decide) (List.cons_ne_nil _ _)
      (.wordless hcomment (@Written.block 2 4 _ _ _ _ _ (by decide) (List.cons_ne_nil _ _)
        (.wordless hblank (@Written.block 6 1 _ _ _ _ _ (by decide) (List.cons_ne_nil _ _)
          (.line .nil) helse)) .nil))
      (.line .nil)
  refine Sketch.parse_written rfl hvalid ((congrArg (Written 0 (bodyLines stmts)) ?_).mp hwritten)
  decide +kernel

end PyAtlas
