import PyAtlas.Token.Basic

/-!
# Reading a stream of tokens

A `Cursor` is a place in a stream: the tokens before it, the latest first, and the tokens
after it. Beyond the last token the stream goes on with ends of input, so looking ahead is
always possible, and moving on stops at the end.

## Key results
- `tokens_advance` and its companions: no operation changes the stream.
- `index_le_size`: a cursor never leaves the stream.
- `remaining_advance_lt`: moving on makes progress unless the stream is used up.
-/

namespace PyAtlas

/-- A place in a stream of tokens over a text of `size` bytes. -/
structure Cursor where
  before : List Token
  after : List Token
  size : Nat
deriving Repr, DecidableEq

namespace Cursor

/-- The place before the first token. -/
def ofTokens (tokens : List Token) (size : Nat) : Cursor :=
  ⟨[], tokens, size⟩

/-- The whole stream. -/
def tokens (c : Cursor) : List Token :=
  c.before.reverse ++ c.after

/-- The number of tokens before the cursor. -/
def index (c : Cursor) : Nat :=
  c.before.length

/-- The number of tokens after the cursor. -/
def remaining (c : Cursor) : Nat :=
  c.after.length

/-- The token `n` places ahead. -/
def peekNth (c : Cursor) (n : Nat) : Token :=
  c.after[n]?.getD (Token.endOfInput c.size)

/-- The next token. -/
def peek (c : Cursor) : Token :=
  c.peekNth 0

/-- The kind of the token `n` places ahead. -/
def kindAt (c : Cursor) (n : Nat) : TokenKind :=
  (c.peekNth n).kind

/-- The kind of the next token. -/
def kind (c : Cursor) : TokenKind :=
  c.kindAt 0

/-- The cursor after the next token, or the same cursor at the end of the stream. -/
def advance (c : Cursor) : Cursor :=
  match c.after with
  | [] => c
  | t :: ts => ⟨t :: c.before, ts, c.size⟩

/-- The next token and the cursor after it. -/
def next (c : Cursor) : Token × Cursor :=
  (c.peek, c.advance)

/-- The next token, read, if it is of the given kind. -/
def eat (c : Cursor) (kind : TokenKind) : Option Token × Cursor :=
  if c.kind = kind then (some c.peek, c.advance) else (none, c)

/-- Moves over `n` tokens. -/
def advanceBy : Nat → Cursor → Cursor
  | 0, c => c
  | n + 1, c => advanceBy n c.advance

/-- The cursor after the newlines that come next. -/
def skipNewlines (c : Cursor) : Cursor :=
  c.advanceBy (c.after.takeWhile (·.kind == .newline)).length

/-- The number of tokens up to and including the first newline, or up to the end of input. -/
def lineLength : List Token → Nat
  | [] => 0
  | t :: ts =>
    match t.kind with
    | .eof => 0
    | .newline => 1
    | _ => lineLength ts + 1

/-- The cursor after the rest of the line and its newline. -/
def skipLine (c : Cursor) : Cursor :=
  c.advanceBy (lineLength c.after)

/-- The number of tokens before the bracket that closes the innermost of `depth + 1` open
    brackets, or before the end of the line. -/
def closingDistance : (depth : Nat) → List Token → Nat
  | _, [] => 0
  | depth, t :: ts =>
    match t.kind with
    | .eof | .newline => 0
    | .operator op =>
      if op.isOpening then closingDistance (depth + 1) ts + 1
      else if op.isClosing then
        match depth with
        | 0 => 0
        | depth + 1 => closingDistance depth ts + 1
      else closingDistance depth ts + 1
    | _ => closingDistance depth ts + 1

/-- The cursor before the bracket that closes one already read, or before the end of the
    line. -/
def skipToClosing (c : Cursor) : Cursor :=
  c.advanceBy (closingDistance 0 c.after)

/-- The span of the last token before the cursor that is not layout. -/
def lastSpan (c : Cursor) : Span :=
  match c.before.find? fun t => !t.kind.isLayout with
  | some t => t.span
  | none => ⟨0, 0⟩

/-! ### Small facts -/

@[simp] theorem tokens_ofTokens (tokens : List Token) (size : Nat) :
    (ofTokens tokens size).tokens = tokens := rfl

@[simp] theorem tokens_advance (c : Cursor) : c.advance.tokens = c.tokens := by
  rcases c with ⟨before, after, size⟩
  cases after <;> simp [advance, tokens]

@[simp] theorem tokens_advanceBy (n : Nat) (c : Cursor) : (c.advanceBy n).tokens = c.tokens := by
  induction n generalizing c with
  | zero => rfl
  | succ n ih => simp [advanceBy, ih]

@[simp] theorem size_advance (c : Cursor) : c.advance.size = c.size := by
  rcases c with ⟨before, after, size⟩
  cases after <;> rfl

@[simp] theorem size_advanceBy (n : Nat) (c : Cursor) : (c.advanceBy n).size = c.size := by
  induction n generalizing c with
  | zero => rfl
  | succ n ih => rw [advanceBy, ih, size_advance]

/-- Moving on uses up one token, if there is one. -/
theorem remaining_advance (c : Cursor) : c.advance.remaining = c.remaining - 1 := by
  rcases c with ⟨before, after, size⟩
  cases after <;> simp [advance, remaining]

theorem remaining_advance_le (c : Cursor) : c.advance.remaining ≤ c.remaining := by
  rw [remaining_advance]
  omega

theorem remaining_advanceBy (n : Nat) (c : Cursor) :
    (c.advanceBy n).remaining = c.remaining - n := by
  induction n generalizing c with
  | zero => rfl
  | succ n ih => rw [advanceBy, ih, remaining_advance]; omega

/-- Where the next token is not an end of input, the stream is not used up. -/
theorem remaining_pos_of_kind_ne {c : Cursor} (h : c.kind ≠ .eof) : 0 < c.remaining := by
  rcases c with ⟨before, after, size⟩
  cases after with
  | nil => exact absurd rfl h
  | cons => simp [remaining]

theorem remaining_advance_lt {c : Cursor} (h : c.kind ≠ .eof) :
    c.advance.remaining < c.remaining := by
  have := remaining_pos_of_kind_ne h
  rw [remaining_advance]
  omega

/-- Every token is before the cursor or after it. -/
theorem index_add_remaining (c : Cursor) : c.index + c.remaining = c.tokens.length := by
  simp [index, remaining, tokens]

/-- The cursor never leaves the stream. -/
theorem index_le_size (c : Cursor) : c.index ≤ c.tokens.length := by
  rw [← index_add_remaining]
  omega

end Cursor

end PyAtlas
