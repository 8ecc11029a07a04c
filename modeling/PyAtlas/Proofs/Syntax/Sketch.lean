import PyAtlas.Proofs.Syntax.TermWords
import PyAtlas.Proofs.Token.Indentation
import PyAtlas.Syntax.ParseStmt
import PyAtlas.Token.StringLiteral

/-!
# Statements and how they are written

A `Sketch` is a statement without places: a definition, a control-flow statement, an assignment
of a literal, an import, or `pass`. `Sketch.lines` writes it down as lines with the lines of its
bodies beneath them; where these lines stand in a text is left to `Written`. Control flow is
kept without its headers, so a header is any row of words with matching brackets.

`Sketch.stmt` is the syntax tree that the lines stand for, with all places left out.

## Key results
- `Sketch.lines`: how a statement is written.
- `Sketch.stmt`: the syntax tree of a statement.
- `Sketch.Valid`: what may be written.
- `Sketch.Valid.readable`: the lexer reads each line of a statement word by word.
-/

namespace PyAtlas

/-! ### Imports -/

/-- Names with points between them. -/
structure DottedPath where
  first : String
  more : List String
deriving Repr, DecidableEq

/-- A module in an import statement, with the name it is bound to if that differs. -/
structure ImportedModule where
  path : DottedPath
  asname : Option String
deriving Repr, DecidableEq

/-- A member in a from-import, with the name it is bound to if that differs. -/
structure ImportedMember where
  name : String
  asname : Option String
deriving Repr, DecidableEq

/-- What a from-import takes. -/
inductive ImportedNames
  | star
  | names (first : ImportedMember) (more : List ImportedMember)
deriving Repr, DecidableEq

/-! ### Parameters -/

/-- The marks before a parameter. -/
inductive ParameterMark
  | none
  | star
  | doubleStar
deriving Repr, DecidableEq

/-- A parameter of a function, or the star behind which parameters are given by keyword. -/
inductive SketchParameter
  | named (mark : ParameterMark) (name : String) (hint default : Option Term)
  | bareStar

/-! ### Statements -/

/-- Statements without places. A clause is its kind, its header and its body. -/
inductive Sketch
  | pass
  | assign (target : String) (value : Word)
  | importModules (first : ImportedModule) (more : List ImportedModule)
  | importFrom (level : Nat) (module : Option DottedPath) (names : ImportedNames)
  | classDef (name : String) (arguments : Option (List (CallForm × Term))) (body : List Sketch)
  | functionDef (isAsync : Bool) (name : String) (parameters : List SketchParameter)
    (returns : Option Term) (body : List Sketch)
  | compound (kind : CompoundKind) (header : List Word) (body : List Sketch)
    (clauses : List (ClauseKind × List Word × List Sketch))

/-! ### Words -/

/-- A reserved word as it is written. -/
def Keyword.word (k : Keyword) : Word := ⟨.keyword k, k.spelling⟩

namespace Word

def arrow : Word := ⟨.operator .arrow, "->"⟩

end Word

/-- The words of names behind a point each. -/
def segmentWords : List String → List Word
  | [] => []
  | name :: names => .dot :: .name name :: segmentWords names

def DottedPath.words (path : DottedPath) : List Word :=
  .name path.first :: segmentWords path.more

/-- The words that bind what is imported to another name. -/
def asnameWords : Option String → List Word
  | none => []
  | some name => [Keyword.as.word, .name name]

def ImportedModule.words (m : ImportedModule) : List Word := m.path.words ++ asnameWords m.asname

def ImportedMember.words (m : ImportedMember) : List Word := .name m.name :: asnameWords m.asname

def ImportedNames.words : ImportedNames → List Word
  | .star => [.star]
  | .names first more => first.words ++ behindCommas (more.map ImportedMember.words)

/-- The words of a term behind another word, if there is one. -/
def optionWords (mark : Word) : Option Term → List Word
  | none => []
  | some t => mark :: t.words

def ParameterMark.words : ParameterMark → List Word
  | .none => []
  | .star => [.star]
  | .doubleStar => [.doubleStar]

def SketchParameter.words : SketchParameter → List Word
  | .named mark name hint default =>
    mark.words ++ .name name :: optionWords .colon hint ++ optionWords .equals default
  | .bareStar => [.star]

/-- The words of some parameters. -/
def parameterWords (ps : List SketchParameter) : List Word :=
  (behindCommas (ps.map SketchParameter.words)).tail

/-- The words of the arguments of a class and of their parentheses, if there are any. -/
def classArgumentWords : Option (List (CallForm × Term)) → List Word
  | none => []
  | some arguments => .lParen :: (argumentWords arguments).tail ++ [.rParen]

/-- The word that begins a clause. -/
def ClauseKind.word : ClauseKind → Word
  | .if => Keyword.if.word
  | .elif => Keyword.elif.word
  | .else => Keyword.else.word
  | .while => Keyword.while.word
  | .for => Keyword.for.word
  | .try => Keyword.try.word
  | .except => Keyword.except.word
  | .finally => Keyword.finally.word
  | .with => Keyword.with.word
  | .match => .name "match"
  | .case => .name "case"

/-- The words before the body of a function. -/
def functionWords (isAsync : Bool) (name : String) (parameters : List SketchParameter)
    (returns : Option Term) : List Word :=
  (if isAsync then [Keyword.async.word] else [])
    ++ (Keyword.define.word :: .name name :: .lParen :: parameterWords parameters ++ [.rParen])
    ++ (optionWords .arrow returns ++ [.colon])

/-- The words of a clause before its body. -/
def ClauseKind.header (kind : ClauseKind) (header : List Word) : List Word :=
  kind.word :: header ++ [.colon]

mutual

/-- The lines of a statement. -/
def Sketch.lines : Sketch → List LineTree
  | .pass => [.mk [Keyword.pass.word] []]
  | .assign target value => [.mk [.name target, .equals, value] []]
  | .importModules first more =>
    [.mk (Keyword.import.word :: first.words ++ behindCommas (more.map ImportedModule.words)) []]
  | .importFrom level module names =>
    [.mk (Keyword.from.word :: List.replicate level .dot
      ++ (module.map DottedPath.words).getD [] ++ Keyword.import.word :: names.words) []]
  | .classDef name arguments body =>
    [.mk (Keyword.classWord.word :: .name name :: classArgumentWords arguments ++ [.colon])
      (bodyLines body)]
  | .functionDef isAsync name parameters returns body =>
    [.mk (functionWords isAsync name parameters returns) (bodyLines body)]
  | .compound kind header body clauses =>
    .mk ((Parser.CompoundKind.firstClause kind).header header) (bodyLines body)
      :: clauseLines clauses

/-- The lines of some clauses. -/
def clauseLines : List (ClauseKind × List Word × List Sketch) → List LineTree
  | [] => []
  | (kind, header, body) :: clauses =>
    .mk (kind.header header) (bodyLines body) :: clauseLines clauses

/-- The lines of some statements. -/
def bodyLines : List Sketch → List LineTree
  | [] => []
  | stmt :: body => stmt.lines ++ bodyLines body

end

/-! ### Syntax trees -/

def DottedPath.text (path : DottedPath) : String := ".".intercalate (path.first :: path.more)

def ImportedModule.alias (m : ImportedModule) : Alias :=
  ⟨m.path.text, m.asname.map (⟨·, .nowhere⟩), .nowhere⟩

def ImportedMember.alias (m : ImportedMember) : Alias :=
  ⟨m.name, m.asname.map (⟨·, .nowhere⟩), .nowhere⟩

def ImportedNames.tree : ImportedNames → ImportNames
  | .star => .star .nowhere
  | .names first more => .names ((first :: more).map ImportedMember.alias)

/-- The kind of a parameter with the given mark, behind a star or not. -/
def ParameterMark.kind (keywordOnly : Bool) : ParameterMark → ParameterKind
  | .none => if keywordOnly then .keywordOnly else .positionalOrKeyword
  | .star => .varPositional
  | .doubleStar => .varKeyword

/-- The parameters that bind names. Behind a star they are given by keyword only. -/
def parameterTrees (keywordOnly : Bool) : List SketchParameter → List Parameter
  | [] => []
  | .bareStar :: ps => parameterTrees true ps
  | .named mark name hint default :: ps =>
    ⟨⟨name, .nowhere⟩, mark.kind keywordOnly, hint.map Term.expr, default.map Term.expr, .nowhere⟩
      :: parameterTrees (keywordOnly || mark == .star) ps

/-- The literal that a word stands for. -/
def Word.literal (w : Word) : Expr :=
  match w.kind with
  | .string marks => .str (((StringLiteral.decode? w.text).map (·.value)).getD "") marks .nowhere
  | .number .int => .literal .int .nowhere
  | .number .float => .literal .float .nowhere
  | .number .imaginary => .literal .complex .nowhere
  | .keyword .none => .literal .none .nowhere
  | .keyword .true => .literal .true .nowhere
  | .keyword .false => .literal .false .nowhere
  | .operator .ellipsis => .literal .ellipsis .nowhere
  | _ => .error .nowhere

mutual

/-- The syntax tree of a statement. -/
def Sketch.stmt : Sketch → Stmt
  | .pass => .simple .pass .nowhere
  | .assign target value => .assign [.name ⟨target, .nowhere⟩] value.literal .nowhere
  | .importModules first more => .importModules ((first :: more).map ImportedModule.alias) .nowhere
  | .importFrom level module names =>
    .importFrom (module.map DottedPath.text) level names.tree .nowhere
  | .classDef name arguments body =>
    .classDef ⟨⟨name, .nowhere⟩, argumentExprs (arguments.getD []), []⟩ (bodyStmts body) .nowhere
  | .functionDef isAsync name parameters returns body =>
    .functionDef
      ⟨⟨name, .nowhere⟩, parameterTrees false parameters, returns.map Term.expr, [], isAsync⟩
      (bodyStmts body) .nowhere
  | .compound kind _ body clauses =>
    .compound kind false
      (.mk (Parser.CompoundKind.firstClause kind) (bodyStmts body) .nowhere :: clauseTrees clauses)
      .nowhere

def clauseTrees : List (ClauseKind × List Word × List Sketch) → List Clause
  | [] => []
  | (kind, _, body) :: clauses => .mk kind (bodyStmts body) .nowhere :: clauseTrees clauses

def bodyStmts : List Sketch → List Stmt
  | [] => []
  | stmt :: body => stmt.stmt :: bodyStmts body

end

/-! ### What may be written -/

/-- Kinds of words that are literals. -/
def TokenKind.isLiteral : TokenKind → Bool
  | .string _ | .number _ | .keyword .none | .keyword .true | .keyword .false
  | .operator .ellipsis => true
  | _ => false

/-- A literal that the lexer reads as one word. -/
structure Word.IsLiteral (v : Version) (w : Word) : Prop where
  separate : Lexer.Separate v w
  literal : w.kind.isLiteral = true

/-- A header of control flow: words with matching brackets and no colon outside of them. -/
structure Header (v : Version) (words : List Word) : Prop where
  separate : Lexer.AllSeparate v words
  balanced : Balanced true false words

def DottedPath.Valid (v : Version) (path : DottedPath) : Prop :=
  ∀ name ∈ path.first :: path.more, FreeName v name

/-- A name that may be left out. -/
def FreeAsname (v : Version) (asname : Option String) : Prop := ∀ name ∈ asname, FreeName v name

def ImportedModule.Valid (v : Version) (m : ImportedModule) : Prop :=
  m.path.Valid v ∧ FreeAsname v m.asname

def ImportedMember.Valid (v : Version) (m : ImportedMember) : Prop :=
  FreeName v m.name ∧ FreeAsname v m.asname

def ImportedNames.Valid (v : Version) : ImportedNames → Prop
  | .star => True
  | .names first more => ∀ m ∈ first :: more, m.Valid v

/-- A term that may be left out. -/
def ValidOption (v : Version) (t : Option Term) : Prop := ∀ t' ∈ t, t'.Valid v

def SketchParameter.Valid (v : Version) : SketchParameter → Prop
  | .named _ name hint default => FreeName v name ∧ ValidOption v hint ∧ ValidOption v default
  | .bareStar => True

/-- The clauses that may follow the first one of a statement. -/
def CompoundKind.admits : CompoundKind → ClauseKind → Bool
  | .if, .elif | .if, .else | .while, .else | .for, .else | .try, .except | .try, .else
  | .try, .finally => true
  | _, _ => false

/-- Statements that may be written: their names are free, their bodies are not empty, and the
    clauses of each statement belong to it. -/
inductive Sketch.Valid (v : Version) : Sketch → Prop
  | pass : Valid v .pass
  | assign {target : String} {value : Word} :
    FreeName v target → value.IsLiteral v → Valid v (.assign target value)
  | importModules {first : ImportedModule} {more : List ImportedModule} :
    (∀ m ∈ first :: more, m.Valid v) → Valid v (.importModules first more)
  | importFrom {level : Nat} {module : Option DottedPath} {names : ImportedNames} :
    (module = none → 0 < level) → (∀ path ∈ module, path.Valid v) → names.Valid v →
    Valid v (.importFrom level module names)
  | classDef {name : String} {arguments : Option (List (CallForm × Term))}
    {body : List Sketch} :
    FreeName v name → (∀ as ∈ arguments, ∀ a ∈ as, a.1.Valid v ∧ a.2.Valid v) → body ≠ [] →
    (∀ stmt ∈ body, Valid v stmt) → Valid v (.classDef name arguments body)
  | functionDef {isAsync : Bool} {name : String} {parameters : List SketchParameter}
    {returns : Option Term} {body : List Sketch} :
    FreeName v name → (∀ p ∈ parameters, p.Valid v) → ValidOption v returns → body ≠ [] →
    (∀ stmt ∈ body, Valid v stmt) → Valid v (.functionDef isAsync name parameters returns body)
  | compound {kind : CompoundKind} {header : List Word} {body : List Sketch}
    {clauses : List (ClauseKind × List Word × List Sketch)} :
    kind ≠ .match → Header v header → body ≠ [] → (∀ stmt ∈ body, Valid v stmt) →
    (∀ c ∈ clauses, CompoundKind.admits kind c.1 = true ∧ Header v c.2.1 ∧ c.2.2 ≠ []) →
    (∀ c ∈ clauses, ∀ stmt ∈ c.2.2, Valid v stmt) →
    Valid v (.compound kind header body clauses)

/-! ### Each line on its own -/

open Lexer

/-- Words of a line: they are read as they stand, and their brackets match. -/
structure OnOneLine (v : Version) (words : List Word) : Prop where
  separate : AllSeparate v words
  balanced : Balanced true true words

namespace OnOneLine

variable {v : Version} {w : Word} {words words' : List Word}

theorem nil : OnOneLine v [] := ⟨.nil, .nil⟩

theorem append (h : OnOneLine v words) (h' : OnOneLine v words') : OnOneLine v (words ++ words') :=
  ⟨.append h.separate h'.separate, .append h.balanced h'.balanced⟩

theorem single (hw : Separate v w) (hplain : w.kind.isPlain = true) : OnOneLine v [w] :=
  ⟨.cons hw .nil, .plain hplain⟩

theorem cons (hw : OnOneLine v [w]) (h : OnOneLine v words) : OnOneLine v (w :: words) :=
  append hw h

theorem name {text : String} (h : FreeName v text) : OnOneLine v [.name text] :=
  single h.separate rfl

theorem mark (hw : w ∈ Word.marks) (hplain : w.kind.isPlain = true) : OnOneLine v [w] :=
  single (separate_mark hw) hplain

theorem comma : OnOneLine v [.comma] := ⟨.mark (by decide) .nil, .comma⟩

theorem colon : OnOneLine v [.colon] := ⟨.mark (by decide) .nil, .colon⟩

theorem parens (h : OnOneLine v words) : OnOneLine v (.lParen :: words ++ [.rParen]) :=
  ⟨.append (.mark (by decide) h.separate) (.mark (by decide) .nil),
    .bracket rfl rfl h.balanced⟩

theorem keyword {k : Keyword} (hv : k.reservedIn v = true) (hplain : k.word.kind.isPlain = true)
    (hident : Text.isIdentifier k.spelling = true) : OnOneLine v [k.word] :=
  single (separate_keyword hv rfl hident) hplain

theorem term {t : Term} (h : t.Valid v) : OnOneLine v t.words :=
  ⟨h.separate, h.balanced.inward⟩

theorem header (h : Header v words) : OnOneLine v words := ⟨h.separate, h.balanced.inward⟩

theorem behindCommas {groups : List (List Word)} (h : ∀ words ∈ groups, OnOneLine v words) :
    OnOneLine v (behindCommas groups) := by
  induction groups with
  | nil => exact nil
  | cons words groups ih =>
    obtain ⟨hwords, hgroups⟩ := List.forall_mem_cons.1 h
    exact append (cons comma hwords) (ih hgroups)

theorem commaSeparated {groups : List (List Word)} (h : ∀ words ∈ groups, OnOneLine v words) :
    OnOneLine v (PyAtlas.behindCommas groups).tail := by
  cases groups with
  | nil => exact nil
  | cons words groups =>
    obtain ⟨hwords, hgroups⟩ := List.forall_mem_cons.1 h
    exact append hwords (behindCommas hgroups)

theorem option {mark : Word} (hmark : OnOneLine v [mark]) {t : Option Term}
    (h : ValidOption v t) : OnOneLine v (optionWords mark t) := by
  cases t with
  | none => exact nil
  | some t => exact cons hmark (term (h t rfl))

end OnOneLine

section Readable

variable {v : Version}

theorem FreeAsname.onOneLine {asname : Option String} (h : FreeAsname v asname) :
    OnOneLine v (asnameWords asname) := by
  cases asname with
  | none => exact .nil
  | some name => exact .cons (.keyword rfl rfl (by decide)) (.name (h name rfl))

theorem DottedPath.Valid.onOneLine {path : DottedPath} (h : path.Valid v) :
    OnOneLine v path.words := by
  obtain ⟨first, more⟩ := path
  obtain ⟨hfirst, hmore⟩ := List.forall_mem_cons.1 h
  refine .cons (.name hfirst) ?_
  clear h hfirst
  induction more with
  | nil => exact .nil
  | cons name names ih =>
    obtain ⟨hname, hnames⟩ := List.forall_mem_cons.1 hmore
    exact .cons (.mark (by decide) rfl) (.cons (.name hname) (ih hnames))

theorem ImportedModule.Valid.onOneLine {m : ImportedModule} (h : m.Valid v) :
    OnOneLine v m.words :=
  .append h.1.onOneLine h.2.onOneLine

theorem ImportedMember.Valid.onOneLine {m : ImportedMember} (h : m.Valid v) :
    OnOneLine v m.words :=
  .cons (.name h.1) h.2.onOneLine

theorem ImportedNames.Valid.onOneLine {names : ImportedNames} (h : names.Valid v) :
    OnOneLine v names.words := by
  cases names with
  | star => exact .mark (by decide) rfl
  | names first more =>
    obtain ⟨hfirst, hmore⟩ := List.forall_mem_cons.1 h
    refine .append hfirst.onOneLine (.behindCommas fun words hwords => ?_)
    obtain ⟨m, hm, rfl⟩ := List.mem_map.1 hwords
    exact (hmore m hm).onOneLine

theorem SketchParameter.Valid.onOneLine {p : SketchParameter} (h : p.Valid v) :
    OnOneLine v p.words := by
  cases p with
  | bareStar => exact .mark (by decide) rfl
  | named mark name hint default =>
    obtain ⟨hname, hhint, hdefault⟩ := h
    have hmark : OnOneLine v mark.words := by
      cases mark with
      | none => exact .nil
      | star => exact .mark (by decide) rfl
      | doubleStar => exact .mark (by decide) rfl
    exact .append (.append hmark (.cons (.name hname) (.option .colon hhint)))
      (.option (.mark (by decide) rfl) hdefault)

theorem onOneLine_classArguments {arguments : Option (List (CallForm × Term))}
    (h : ∀ as ∈ arguments, ∀ a ∈ as, a.1.Valid v ∧ a.2.Valid v) :
    OnOneLine v (classArgumentWords arguments) := by
  cases arguments with
  | none => exact .nil
  | some as =>
    refine .parens ⟨(AllSeparate.argumentWords ?_ ?_).tail, Balanced.argumentWords_tail ?_⟩
    · exact fun a ha => (h as rfl a ha).1
    · exact fun a ha => (h as rfl a ha).2.separate
    · exact fun a ha => (h as rfl a ha).2.balanced.inward

theorem onOneLine_function (hv : v.atLeast 3 7 = true) {isAsync : Bool} {name : String}
    {parameters : List SketchParameter} {returns : Option Term} (hname : FreeName v name)
    (hparameters : ∀ p ∈ parameters, p.Valid v) (hreturns : ValidOption v returns) :
    OnOneLine v (functionWords isAsync name parameters returns) := by
  have hasync : OnOneLine v (if isAsync then [Keyword.async.word] else []) := by
    cases isAsync with
    | false => exact .nil
    | true => exact .keyword hv rfl (by decide)
  have harrow : OnOneLine v [.arrow] :=
    .single (separate_sign (by decide) fun v => by cases v <;> rfl) rfl
  have hlist : OnOneLine v (parameterWords parameters) := by
    refine .commaSeparated fun words hwords => ?_
    obtain ⟨p, hp, rfl⟩ := List.mem_map.1 hwords
    exact (hparameters p hp).onOneLine
  exact .append (.append hasync (.cons (.keyword rfl rfl (by decide))
    (.cons (.name hname) (.parens hlist)))) (.append (.option harrow hreturns) .colon)

theorem ClauseKind.onOneLine_word {kind : ClauseKind} (hcase : kind ≠ .case)
    (hmatch : kind ≠ .match) : OnOneLine v [kind.word] := by
  cases kind with
  | «for» => exact ⟨.cons (separate_keyword rfl rfl (by decide)) .nil, .forWord⟩
  | «match» => exact absurd rfl hmatch
  | case => exact absurd rfl hcase
  | _ => exact .keyword rfl rfl (by decide)

theorem Header.onOneLine {kind : ClauseKind} (hcase : kind ≠ .case) (hmatch : kind ≠ .match)
    {header : List Word} (h : Header v header) : OnOneLine v (kind.header header) :=
  .append (.cons (kind.onOneLine_word hcase hmatch) (.header h)) .colon

theorem CompoundKind.ne_of_admits {kind : CompoundKind} {clause : ClauseKind}
    (h : kind.admits clause = true) : clause ≠ .case ∧ clause ≠ .match := by
  constructor
  all_goals
    rintro rfl
    cases kind <;> cases h

theorem isPlain_of_isLiteral {k : TokenKind} (h : k.isLiteral = true) : k.isPlain = true := by
  cases k with
  | operator op => cases op <;> first | rfl | cases h
  | keyword word => cases word <;> first | rfl | cases h
  | _ => first | rfl | cases h

theorem onOneLine_from {level : Nat} {module : Option DottedPath} {names : ImportedNames}
    (hmodule : ∀ path ∈ module, path.Valid v) (hnames : names.Valid v) :
    OnOneLine v (Keyword.from.word :: List.replicate level .dot
      ++ (module.map DottedPath.words).getD [] ++ Keyword.import.word :: names.words) := by
  have hpoints : ∀ n, OnOneLine v (List.replicate n .dot) := by
    intro n
    induction n with
    | zero => exact .nil
    | succ n ih => exact .cons (.mark (by decide) rfl) ih
  have hpath : OnOneLine v ((module.map DottedPath.words).getD []) := by
    cases module with
    | none => exact .nil
    | some path => exact (hmodule path rfl).onOneLine
  exact .append (.append (.cons (.keyword rfl rfl (by decide)) (hpoints level)) hpath)
    (.cons (.keyword rfl rfl (by decide)) hnames.onOneLine)

theorem readable_mk {words : List Word} {beneath : List LineTree} (hne : words ≠ [])
    (h : OnOneLine v words) (hbeneath : ∀ line ∈ beneath, line.Readable v) :
    (LineTree.mk words beneath).Readable v :=
  .mk hne h.separate h.balanced hbeneath

theorem readable_alone {words : List Word} (hne : words ≠ []) (h : OnOneLine v words) :
    ∀ line ∈ [LineTree.mk words []], line.Readable v :=
  List.forall_mem_singleton.2 (readable_mk hne h fun _ hline => nomatch hline)

theorem readable_bodyLines {body : List Sketch}
    (h : ∀ stmt ∈ body, ∀ line ∈ stmt.lines, line.Readable v) :
    ∀ line ∈ bodyLines body, line.Readable v := by
  induction body with
  | nil => exact fun line hline => nomatch hline
  | cons stmt body ih =>
    obtain ⟨hstmt, hbody⟩ := List.forall_mem_cons.1 h
    exact List.forall_mem_append.2 ⟨hstmt, ih hbody⟩

theorem readable_clauseLines {clauses : List (ClauseKind × List Word × List Sketch)}
    (hheaders : ∀ c ∈ clauses, c.1 ≠ .case ∧ c.1 ≠ .match ∧ Header v c.2.1)
    (h : ∀ c ∈ clauses, ∀ stmt ∈ c.2.2, ∀ line ∈ stmt.lines, line.Readable v) :
    ∀ line ∈ clauseLines clauses, line.Readable v := by
  induction clauses with
  | nil => exact fun line hline => nomatch hline
  | cons c clauses ih =>
    obtain ⟨⟨hcase, hmatch, hheader⟩, hheaders⟩ := List.forall_mem_cons.1 hheaders
    obtain ⟨hbody, hclauses⟩ := List.forall_mem_cons.1 h
    exact List.forall_mem_cons.2
      ⟨readable_mk (List.cons_ne_nil _ _) (hheader.onOneLine hcase hmatch)
        (readable_bodyLines hbody), ih hheaders hclauses⟩

/-- The lexer reads the lines of a statement word by word. -/
theorem Sketch.Valid.readable (hv : v.atLeast 3 7 = true) {stmt : Sketch} (h : stmt.Valid v) :
    ∀ line ∈ stmt.lines, line.Readable v := by
  induction h with
  | pass => exact readable_alone (List.cons_ne_nil _ _) (.keyword rfl rfl (by decide))
  | assign htarget hvalue =>
    refine readable_alone (List.cons_ne_nil _ _) (.cons (.name htarget) (.cons ?_ ?_))
    · exact .mark (by decide) rfl
    · exact .single hvalue.separate (isPlain_of_isLiteral hvalue.literal)
  | @importModules first more hmodules =>
    obtain ⟨hfirst, hmore⟩ := List.forall_mem_cons.1 hmodules
    refine readable_alone (List.cons_ne_nil _ _) (.append (.cons ?_ hfirst.onOneLine) ?_)
    · exact .keyword rfl rfl (by decide)
    · refine .behindCommas fun words hwords => ?_
      obtain ⟨m, hm, rfl⟩ := List.mem_map.1 hwords
      exact (hmore m hm).onOneLine
  | importFrom _ hmodule hnames =>
    exact readable_alone (List.cons_ne_nil _ _) (onOneLine_from hmodule hnames)
  | classDef hname harguments _ _ ih =>
    refine List.forall_mem_singleton.2
      (readable_mk (List.cons_ne_nil _ _) ?_ (readable_bodyLines ih))
    exact .append (.cons (.keyword rfl rfl (by decide))
      (.cons (.name hname) (onOneLine_classArguments harguments))) .colon
  | functionDef hname hparameters hreturns _ _ ih =>
    refine List.forall_mem_singleton.2 (readable_mk ?_ ?_ (readable_bodyLines ih))
    · simp [functionWords]
    · exact onOneLine_function hv hname hparameters hreturns
  | @compound kind header body clauses hkind hheader _ _ hclauses _ ih ihc =>
    refine List.forall_mem_cons.2 ⟨readable_mk (List.cons_ne_nil _ _) ?_ (readable_bodyLines ih),
      readable_clauseLines ?_ ihc⟩
    · refine hheader.onOneLine ?_ ?_
      all_goals cases kind <;> first | exact absurd rfl hkind | exact fun heq => by cases heq
    · intro c hc
      obtain ⟨hadmits, hheader, -⟩ := hclauses c hc
      obtain ⟨hcase, hmatch⟩ := CompoundKind.ne_of_admits hadmits
      exact ⟨hcase, hmatch, hheader⟩

end Readable

end PyAtlas
