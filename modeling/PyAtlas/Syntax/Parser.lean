import PyAtlas.Syntax.Basic
import PyAtlas.Syntax.Error
import PyAtlas.Token.Cursor

/-!
# Parsers

A `Parser α` reads tokens from a cursor, reports errors and yields an `α`. Errors never stop a
parser: it reports them and goes on with the tokens that follow.

Parsers that call each other in a circle are tied together in two ways, both measured by the
tokens that remain. `loop` repeats a step for as long as it makes progress. `nested` runs a
parser on what is left of the tokens after some have been read. Where there is no progress, both
end at once; the parsers of this library read a token before they go round, so that case is for
the measure only.

## Key results
- `loop_eq`, `nested_of_lt`: how the two unfold.
-/

namespace PyAtlas

/-- Where a parser stands and what it has reported so far, in the order of the reports. -/
structure ParserState where
  cursor : Cursor
  errors : List SyntaxError
deriving Repr

/-- The number of tokens that have not been read. -/
def ParserState.remaining (s : ParserState) : Nat :=
  s.cursor.remaining

/-- A parser of some result. -/
abbrev Parser := StateM ParserState

namespace Parser

/-! ### Looking ahead -/

/-- Something that the tokens around the cursor tell. -/
def look {α : Type} (f : Cursor → α) : Parser α := fun s => (f s.cursor, s)

/-- The next token. -/
def peek : Parser Token := look Cursor.peek

/-- The kind of the next token. -/
def kind : Parser TokenKind := look Cursor.kind

/-- The span of the last token read that is not layout. -/
def lastSpan : Parser Span := look Cursor.lastSpan

/-- Whether the next token is of the given kind. -/
def at? (k : TokenKind) : Parser Bool := look fun c => c.kind == k

/-- From the start of a span to the last token read. -/
def spanFrom (start : Span) : Parser Span := look fun c => start.merge c.lastSpan

/-! ### Reading and reporting -/

/-- Moves the cursor. -/
def move (f : Cursor → Cursor) : Parser Unit := fun s => ((), { s with cursor := f s.cursor })

/-- Reads one token. -/
def advance : Parser Unit := move Cursor.advance

/-- Reads one token and yields it. -/
def next : Parser Token := fun s => (s.cursor.peek, { s with cursor := s.cursor.advance })

/-- Reads the next token if it is of the given kind. -/
def eat (k : TokenKind) : Parser (Option Token) := fun s =>
  ((s.cursor.eat k).1, { s with cursor := (s.cursor.eat k).2 })

/-- Reads the next token if it is of the given kind, and says whether it was. -/
def eats (k : TokenKind) : Parser Bool := do
  let token ← eat k
  pure token.isSome

/-- Reads the newlines that come next. -/
def skipNewlines : Parser Unit := move Cursor.skipNewlines

/-- Reads the rest of the line and its newline. -/
def skipLine : Parser Unit := move Cursor.skipLine

/-- Reads up to the bracket that closes one already read, or to the end of the line. -/
def skipToClosing : Parser Unit := move Cursor.skipToClosing

/-- Reports a fault. -/
def report (fault : SyntaxFault) (span : Span) : Parser Unit := fun s =>
  ((), { s with errors := s.errors ++ [⟨fault, span⟩] })

/-- Reports that the given token is not what the grammar allows. -/
def expected (expectation : Expectation) (token : Token) : Parser Unit :=
  report (.expected expectation token.describe) token.span

/-! ### Names -/

/-- The name that a token stands for. Two words that older versions reserve are names wherever
    a name is expected. -/
def identifier? (t : Token) : Option Identifier :=
  match t.kind with
  | .identifier | .keyword .print | .keyword .exec => some ⟨t.text, t.span⟩
  | _ => none

/-- Reads a name, or reports that there is none. -/
def expectIdentifier : Parser (Option Identifier) := do
  let token ← peek
  match identifier? token with
  | some ident =>
    advance
    pure (some ident)
  | none =>
    expected .identifier token
    pure none

/-! ### Going round -/

/-- The outcome of one step of a loop. -/
inductive LoopStep (α β : Type)
  | again (state : α)
  | finished (result : β)
deriving Repr

/-- Repeats a step until it finishes or reads nothing. -/
def loop {α β : Type} (giveUp : α → β) (step : α → Parser (LoopStep α β)) (a : α) :
    Parser β := fun s =>
  match step a s with
  | (.finished b, t) => (b, t)
  | (.again a, t) =>
    if _h : t.remaining < s.remaining then loop giveUp step a t else (giveUp a, t)
termination_by s => s.remaining

theorem loop_eq {α β : Type} (giveUp : α → β) (step : α → Parser (LoopStep α β)) (a : α)
    (s : ParserState) :
    loop giveUp step a s =
      match step a s with
      | (.finished b, t) => (b, t)
      | (.again a, t) =>
        if t.remaining < s.remaining then loop giveUp step a t else (giveUp a, t) := by
  rw [loop]
  split <;> simp_all

/-- Runs a parser of what is left after some of `limit` tokens have been read. -/
def nested {α : Type} (limit : Nat) (giveUp : α)
    (parser : (s : ParserState) → s.remaining < limit → α × ParserState) : Parser α := fun s =>
  if h : s.remaining < limit then parser s h else (giveUp, s)

theorem nested_of_lt {α : Type} {limit : Nat} {giveUp : α}
    {parser : (s : ParserState) → s.remaining < limit → α × ParserState} {s : ParserState}
    (h : s.remaining < limit) : nested limit giveUp parser s = parser s h := by
  simp [nested, h]

end Parser

end PyAtlas
