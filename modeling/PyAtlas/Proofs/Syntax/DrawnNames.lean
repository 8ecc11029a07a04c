import PyAtlas.Proofs.Syntax.Placing
import PyAtlas.Syntax.ParseStmt

/-!
# Names that parsers draw from tokens

A syntax tree has names in many places: in expressions and arguments, in the headers of classes and
functions, in what imports bind and in the dotted names of what they import. A parser makes up none
of them, also where it goes on after an error. Every identifier is the name of a token, and every
dotted name of an import is put together from such names.

`Draws ts p P` is a triple about the runs of a parser on the tokens `ts`, wherever in them it may
begin: it stays on these tokens, and what it yields satisfies `P`.

## Key definitions
- `Expr.identifiers`, `Stmt.identifiers`: the identifiers in a tree.
- `Stmt.importedNames`: the dotted names of what a statement imports.
- `Drawn`, `DottedFrom`, `NamesDrawn`: names that come from tokens.
- `Draws`: what runs of a parser on some tokens yield.

## Key results
- `Draws.bind`, `Draws.loop`: how parsers are put together.
- `Draws.peek_bind`, `Draws.expectIdentifier_bind`: where names come from.
-/

namespace PyAtlas

/-! ### The names in a tree -/

mutual

/-- The identifiers in an expression. -/
def Expr.identifiers : Expr → List Identifier
  | .name ident => [ident]
  | .attribute value attr _ => value.identifiers ++ [attr]
  | .call func arguments _ => func.identifiers ++ argumentIdentifiers arguments
  | .subscript value index _ => value.identifiers ++ index.identifiers
  | .literal .. | .str .. | .other _ | .error _ => []
  | .list items _ | .tuple items _ | .set items _ => exprIdentifiers items
  | .dict items _ => entryIdentifiers items
  | .unary _ operand _ => operand.identifiers
  | .binary _ lhs rhs _ => lhs.identifiers ++ rhs.identifiers
  | .starred value _ => value.identifiers

/-- The identifiers in an argument. -/
def Argument.identifiers : Argument → List Identifier
  | .keyword name value => name :: value.identifiers
  | .positional value | .star value | .doubleStar value => value.identifiers

/-- The identifiers in some expressions. -/
def exprIdentifiers : List Expr → List Identifier
  | [] => []
  | e :: es => e.identifiers ++ exprIdentifiers es

/-- The identifiers in some arguments. -/
def argumentIdentifiers : List Argument → List Identifier
  | [] => []
  | a :: as => a.identifiers ++ argumentIdentifiers as

/-- The identifiers in the entries of a dictionary. -/
def entryIdentifiers : List (Expr × Expr) → List Identifier
  | [] => []
  | (key, value) :: entries => key.identifiers ++ value.identifiers ++ entryIdentifiers entries

end

/-- The identifiers in a parameter. -/
def Parameter.identifiers (p : Parameter) : List Identifier :=
  p.name :: exprIdentifiers (p.hint.toList ++ p.default.toList)

/-- The members that a from-import names. -/
def ImportNames.aliases : ImportNames → List Alias
  | .star _ => []
  | .names aliases => aliases

mutual

/-- The identifiers in a statement. -/
def Stmt.identifiers : Stmt → List Identifier
  | .classDef header body _ => exprIdentifiers header.decorators
      ++ header.name :: argumentIdentifiers header.arguments ++ bodyIdentifiers body
  | .functionDef header body _ => exprIdentifiers header.decorators
      ++ header.name :: header.parameters.flatMap Parameter.identifiers
      ++ exprIdentifiers header.returns.toList ++ bodyIdentifiers body
  | .assign targets value _ => exprIdentifiers (targets ++ [value])
  | .annAssign target hint value _ => exprIdentifiers (target :: hint :: value.toList)
  | .augAssign target _ value _ => exprIdentifiers [target, value]
  | .importModules names _ => names.filterMap Alias.asname
  | .importFrom _ _ names _ => names.aliases.filterMap Alias.asname
  | .expr value => value.identifiers
  | .compound _ _ clauses _ => clauseIdentifiers clauses
  | .simple .. | .error _ => []

/-- The identifiers in some clauses. -/
def clauseIdentifiers : List Clause → List Identifier
  | [] => []
  | .mk _ body _ :: clauses => bodyIdentifiers body ++ clauseIdentifiers clauses

/-- The identifiers in a body. -/
def bodyIdentifiers : List Stmt → List Identifier
  | [] => []
  | stmt :: body => stmt.identifiers ++ bodyIdentifiers body

end

/-- The names of what a statement without a body imports: modules, the module of a from-import
    and the members that are taken from it. -/
def Stmt.importedNames : Stmt → List String
  | .importModules names _ => names.map Alias.name
  | .importFrom module _ names _ => module.toList ++ names.aliases.map Alias.name
  | _ => []

theorem exprIdentifiers_append (es es' : List Expr) :
    exprIdentifiers (es ++ es') = exprIdentifiers es ++ exprIdentifiers es' := by
  induction es with
  | nil => rfl
  | cons e es ih => simp [exprIdentifiers, ih]

theorem argumentIdentifiers_append (as as' : List Argument) :
    argumentIdentifiers (as ++ as') = argumentIdentifiers as ++ argumentIdentifiers as' := by
  induction as with
  | nil => rfl
  | cons a as ih => simp [argumentIdentifiers, ih]

theorem entryIdentifiers_append (entries entries' : List (Expr × Expr)) :
    entryIdentifiers (entries ++ entries')
      = entryIdentifiers entries ++ entryIdentifiers entries' := by
  induction entries with
  | nil => rfl
  | cons entry entries ih => simp [entryIdentifiers, ih]

theorem clauseIdentifiers_append (clauses clauses' : List Clause) :
    clauseIdentifiers (clauses ++ clauses')
      = clauseIdentifiers clauses ++ clauseIdentifiers clauses' := by
  induction clauses with
  | nil => rfl
  | cons clause clauses ih =>
    obtain ⟨kind, body, span⟩ := clause
    simp [clauseIdentifiers, ih]

theorem bodyIdentifiers_append (body body' : List Stmt) :
    bodyIdentifiers (body ++ body') = bodyIdentifiers body ++ bodyIdentifiers body' := by
  induction body with
  | nil => rfl
  | cons stmt body ih => simp [bodyIdentifiers, ih]

/-! ### Names of tokens -/

/-- The identifier is the name of one of the tokens. -/
def Drawn (ts : List Token) (ident : Identifier) : Prop :=
  ∃ t ∈ ts, Parser.identifier? t = some ident

/-- The dotted name is made of names of the tokens, with points between them. -/
inductive DottedFrom (ts : List Token) : String → Prop
  | name {ident : Identifier} (h : Drawn ts ident) : DottedFrom ts ident.name
  | point {dotted : String} {ident : Identifier} (hdotted : DottedFrom ts dotted)
    (h : Drawn ts ident) : DottedFrom ts (dotted ++ "." ++ ident.name)

/-- All of the identifiers are names of the tokens. -/
def AllDrawn (ts : List Token) (idents : List Identifier) : Prop :=
  ∀ ident ∈ idents, Drawn ts ident

namespace AllDrawn

variable {ts : List Token} {ident : Identifier} {idents idents' : List Identifier}

@[simp] theorem nil : AllDrawn ts [] := List.forall_mem_nil _

@[simp] theorem cons_iff :
    AllDrawn ts (ident :: idents) ↔ Drawn ts ident ∧ AllDrawn ts idents :=
  List.forall_mem_cons

@[simp] theorem append_iff :
    AllDrawn ts (idents ++ idents') ↔ AllDrawn ts idents ∧ AllDrawn ts idents' :=
  List.forall_mem_append

end AllDrawn

/-- The identifiers and the names of what some statements without a body import come from the
    tokens. -/
structure NamesDrawn (ts : List Token) (idents : List Identifier) (leaves : List Stmt) : Prop where
  identifiers : AllDrawn ts idents
  imported : ∀ leaf ∈ leaves, ∀ dotted ∈ leaf.importedNames, DottedFrom ts dotted

namespace NamesDrawn

variable {ts : List Token} {idents idents' : List Identifier} {leaves leaves' : List Stmt}

theorem nil : NamesDrawn ts [] [] := ⟨.nil, List.forall_mem_nil _⟩

/-- A statement that imports nothing. -/
theorem of_identifiers {leaf : Stmt} (h : AllDrawn ts idents) (hleaf : leaf.importedNames = []) :
    NamesDrawn ts idents [leaf] := by
  refine ⟨h, List.forall_mem_singleton.2 ?_⟩
  rw [hleaf]
  exact List.forall_mem_nil _

theorem append (h : NamesDrawn ts idents leaves) (h' : NamesDrawn ts idents' leaves') :
    NamesDrawn ts (idents ++ idents') (leaves ++ leaves') :=
  ⟨AllDrawn.append_iff.2 ⟨h.identifiers, h'.identifiers⟩,
    List.forall_mem_append.2 ⟨h.imported, h'.imported⟩⟩

/-- A header is read in front of a body. -/
theorem of_header (h : AllDrawn ts idents) (h' : NamesDrawn ts idents' leaves) :
    NamesDrawn ts (idents ++ idents') leaves :=
  ⟨AllDrawn.append_iff.2 ⟨h, h'.identifiers⟩, h'.imported⟩

end NamesDrawn

/-- The names in a statement come from the tokens. -/
abbrev StmtDrawn (ts : List Token) (stmt : Stmt) : Prop :=
  NamesDrawn ts stmt.identifiers stmt.leaves

/-- The names in some clauses come from the tokens. -/
abbrev ClausesDrawn (ts : List Token) (clauses : List Clause) : Prop :=
  NamesDrawn ts (clauseIdentifiers clauses) (clauseLeaves clauses)

/-- The names in a body come from the tokens. -/
abbrev BodyDrawn (ts : List Token) (body : List Stmt) : Prop :=
  NamesDrawn ts (bodyIdentifiers body) (bodyLeaves body)

section Bodies

variable {ts : List Token}

theorem ClausesDrawn.append {clauses clauses' : List Clause} (h : ClausesDrawn ts clauses)
    (h' : ClausesDrawn ts clauses') : ClausesDrawn ts (clauses ++ clauses') := by
  rw [ClausesDrawn, clauseIdentifiers_append, clauseLeaves_append]
  exact NamesDrawn.append h h'

theorem BodyDrawn.append {body body' : List Stmt} (h : BodyDrawn ts body)
    (h' : BodyDrawn ts body') : BodyDrawn ts (body ++ body') := by
  rw [BodyDrawn, bodyIdentifiers_append, bodyLeaves_append]
  exact NamesDrawn.append h h'

theorem StmtDrawn.body {stmt : Stmt} (h : StmtDrawn ts stmt) : BodyDrawn ts [stmt] :=
  NamesDrawn.append h .nil

end Bodies

/-- What the cursor shows is a name only if a token is. -/
theorem Cursor.drawn_peekNth {c : Cursor} {n : Nat} {ident : Identifier}
    (h : Parser.identifier? (c.peekNth n) = some ident) : Drawn c.tokens ident := by
  rw [peekNth] at h
  cases hafter : c.after[n]? with
  | none =>
    -- The end of input, which is no name, is seen behind the last token.
    rw [hafter] at h
    cases h
  | some t =>
    rw [hafter] at h
    exact ⟨t, List.mem_append_right _ (List.mem_of_getElem? hafter), h⟩

/-! ### Runs on some tokens -/

/-- On the tokens `ts` the parser yields what satisfies `P`. -/
def Draws (ts : List Token) {α : Type} (p : Parser α) (P : α → Prop) : Prop :=
  ∀ s, s.cursor.tokens = ts → (p s).2.cursor.tokens = ts ∧ P (p s).1

/-- What a loop has read so far satisfies `S`, and what it yields in the end satisfies `T`. -/
def Parser.LoopStep.Holds {α β : Type} (S : α → Prop) (T : β → Prop) : LoopStep α β → Prop
  | .again a => S a
  | .finished b => T b

namespace Draws

open PyAtlas.Parser

variable {ts : List Token} {α β : Type} {P P' : α → Prop} {Q : β → Prop} {p : Parser α}
  {f : α → Parser β}

theorem pure {a : α} (h : P a) : Draws ts (Pure.pure a) P := fun _ hs => ⟨hs, h⟩

theorem bind (h : Draws ts p P) (hf : ∀ a, P a → Draws ts (f a) Q) : Draws ts (p >>= f) Q := by
  intro s hs
  obtain ⟨hon, ha⟩ := h s hs
  exact hf (p s).1 ha (p s).2 hon

theorem mono (h : Draws ts p P) (hP : ∀ a, P a → P' a) : Draws ts p P' :=
  fun s hs => (h s hs).imp_right (hP _)

/-- What is yielded often does not matter. -/
theorem any (h : Draws ts p P) : Draws ts p fun _ => True := h.mono fun _ _ => trivial

theorem map {g : α → β} (h : Draws ts p fun a => Q (g a)) : Draws ts (g <$> p) Q := h

theorem discard (h : Draws ts p P) : Draws ts (Functor.discard p) fun _ => True := h.any

theorem ite {c : Prop} [Decidable c] {q : Parser α} (h : Draws ts p P) (h' : Draws ts q P) :
    Draws ts (if c then p else q) P := by
  split
  · exact h
  · exact h'

/-- A parser that does in every state what some other one does. -/
theorem of_pointwise (h : ∀ s, ∃ q, Draws ts q P ∧ p s = q s) : Draws ts p P := by
  intro s hs
  obtain ⟨q, hq, heq⟩ := h s
  rw [heq]
  exact hq s hs

/-! ### Looking and reading -/

theorem look_bind {g : Cursor → α} (h : ∀ a, Draws ts (f a) Q) : Draws ts (look g >>= f) Q :=
  fun s hs => h (g s.cursor) s hs

/-- Wherever a token is looked at, its name is among those of the tokens. -/
theorem peekNth_bind {n : Nat} {f : Token → Parser β}
    (h : ∀ token, (∀ ident, identifier? token = some ident → Drawn ts ident) →
      Draws ts (f token) Q) : Draws ts (look (Cursor.peekNth · n) >>= f) Q := by
  intro s hs
  refine h (s.cursor.peekNth n) (fun ident hident => ?_) s hs
  rw [← hs]
  exact Cursor.drawn_peekNth hident

theorem peek_bind {f : Token → Parser β}
    (h : ∀ token, (∀ ident, identifier? token = some ident → Drawn ts ident) →
      Draws ts (f token) Q) : Draws ts (peek >>= f) Q :=
  peekNth_bind h

theorem move {g : Cursor → Cursor} (hg : ∀ c, (g c).tokens = c.tokens) :
    Draws ts (Parser.move g) fun _ => True :=
  fun s hs => ⟨(hg s.cursor).trans hs, trivial⟩

theorem advance : Draws ts Parser.advance fun _ => True :=
  move Cursor.tokens_advance

theorem skipNewlines : Draws ts Parser.skipNewlines fun _ => True :=
  move fun c => c.tokens_advanceBy _

theorem skipLine : Draws ts Parser.skipLine fun _ => True :=
  move fun c => c.tokens_advanceBy _

theorem skipToClosing : Draws ts Parser.skipToClosing fun _ => True :=
  move fun c => c.tokens_advanceBy _

theorem next_bind {f : Token → Parser β} (h : ∀ token, Draws ts (f token) Q) :
    Draws ts (Parser.next >>= f) Q :=
  look_bind (g := Cursor.peek) (f := fun token => Parser.advance >>= fun _ => f token)
    fun token => advance.bind fun _ _ => h token

theorem eat_bind {k : TokenKind} {f : Option Token → Parser β} (h : ∀ token, Draws ts (f token) Q) :
    Draws ts (Parser.eat k >>= f) Q := by
  rw [eat_bind_eq]
  exact look_bind fun token => ite (advance.bind fun _ _ => h (some token)) (h none)

theorem eat {k : TokenKind} : Draws ts (Parser.eat k) fun _ => True :=
  eat_bind (f := Pure.pure) fun _ => pure trivial

theorem eats_bind {k : TokenKind} {f : Bool → Parser β} (htrue : Draws ts (f true) Q)
    (hfalse : Draws ts (f false) Q) : Draws ts (Parser.eats k >>= f) Q :=
  eat_bind (f := fun token => f token.isSome) fun token => by
    cases token with
    | none => exact hfalse
    | some _ => exact htrue

theorem report {fault : SyntaxFault} {span : Span} :
    Draws ts (Parser.report fault span) fun _ => True :=
  fun _ hs => ⟨hs, trivial⟩

theorem expected {expectation : Expectation} {token : Token} :
    Draws ts (Parser.expected expectation token) fun _ => True :=
  report

theorem expectIdentifier_bind {f : Option Identifier → Parser β}
    (hsome : ∀ ident, Drawn ts ident → Draws ts (f (some ident)) Q) (hnone : Draws ts (f none) Q) :
    Draws ts (expectIdentifier >>= f) Q := by
  rw [expectIdentifier_bind_eq]
  refine peek_bind fun token hdrawn => ?_
  split
  · rename_i ident hident
    exact advance.bind fun _ _ => hsome ident (hdrawn ident hident)
  · exact expected.bind fun _ _ => hnone

/-- A node over what has been read. -/
theorem spanFrom_pure {start : Span} {g : Span → β} (h : ∀ span, Q (g span)) :
    Draws ts (spanFrom start >>= fun span => Pure.pure (g span)) Q :=
  look_bind fun span => pure (h span)

/-! ### Going round -/

theorem loop {S : α → Prop} {T : β → Prop} {giveUp : α → β} {step : α → Parser (LoopStep α β)}
    (hstep : ∀ a, S a → Draws ts (step a) fun r => r.Holds S T) (hgive : ∀ a, S a → T (giveUp a))
    {a : α} (ha : S a) : Draws ts (Parser.loop giveUp step a) T := by
  intro s hs
  -- The induction is on the tokens that remain, along the rounds of the loop.
  induction hm : s.remaining using Nat.strongRecOn generalizing a s with
  | ind m ih =>
    obtain ⟨hon, hr⟩ := hstep a ha s hs
    rw [loop_eq]
    cases hround : step a s with
    | mk r t =>
      rw [hround] at hon hr
      cases r with
      | finished b => exact ⟨hon, hr⟩
      | again a' =>
        dsimp only
        split
        · rename_i hlt
          exact ih _ (hm ▸ hlt) hr t hon rfl
        · exact ⟨hon, hgive a' hr⟩

theorem loop_id {S : α → Prop} {step : α → Parser (LoopStep α α)}
    (hstep : ∀ a, S a → Draws ts (step a) fun r => r.Holds S S) {a : α} (ha : S a) :
    Draws ts (Parser.loop id step a) S :=
  loop hstep (fun _ h => h) ha

/-- A loop that yields nothing of note. -/
theorem loop_any {giveUp : α → β} {step : α → Parser (LoopStep α β)}
    (hstep : ∀ a, Draws ts (step a) fun _ => True) {a : α} :
    Draws ts (Parser.loop giveUp step a) fun _ => True :=
  loop (S := fun _ => True) (T := fun _ => True)
    (fun a _ => (hstep a).mono fun r _ => by cases r <;> trivial) (fun _ _ => trivial) trivial

end Draws

end PyAtlas
