import PyAtlas.Token.Basic

/-!
# From text to tokens

The lexer reads a text from left to right. What it has not read yet is an `Input`; what it
remembers of the text before is a `Layout`: the columns of the open blocks, the number of open
brackets, and whether the current line has tokens. `front` looks at the text inside a line and
says what stands there, `openLine` compares the indentation of a line with the open blocks, and
`run` strings the two together.

Line feeds inside brackets and after a backslash do not end a line, and lines that are blank or
hold only a comment yield nothing. Every stream ends with a newline token if the last line lacks
one, with a dedent for each block that is still open, and with a single end of input.

## Key results
- `Input.stop_advance`: reading moves through the text and never leaves it.
- `run` is total: each step reads a character or settles the start of a line.
-/

namespace PyAtlas.Lexer

/-! ### The unread text -/

/-- The text that has not been read yet and the offset where it begins. -/
structure Input where
  offset : Nat
  rest : List Char
deriving Repr, DecidableEq

namespace Input

/-- The input for a whole text. -/
def ofChars (cs : List Char) : Input := ⟨0, cs⟩

/-- The input after the next `n` characters. -/
def advance (i : Input) (n : Nat) : Input :=
  ⟨i.offset + Text.byteSize (i.rest.take n), i.rest.drop n⟩

/-- The input after all next characters that satisfy `p`. -/
def skipWhile (i : Input) (p : Char → Bool) : Input :=
  i.advance (i.rest.takeWhile p).length

/-- The offset of the end of the text. -/
def stop (i : Input) : Nat :=
  i.offset + Text.byteSize i.rest

/-- Reading never moves the end of the text. -/
@[simp] theorem stop_advance (i : Input) (n : Nat) : (i.advance n).stop = i.stop := by
  have h : Text.byteSize i.rest
      = Text.byteSize (i.rest.take n) + Text.byteSize (i.rest.drop n) := by
    rw [← Text.byteSize_append, List.take_append_drop]
  simp only [stop, advance, h, Nat.add_assoc]

@[simp] theorem stop_skipWhile (i : Input) (p : Char → Bool) :
    (i.skipWhile p).stop = i.stop :=
  i.stop_advance _

theorem length_rest_advance (i : Input) (n : Nat) :
    (i.advance n).rest.length = i.rest.length - n := by
  simp [advance]

/-- The token that the next `n` characters make. -/
def token (i : Input) (kind : TokenKind) (n : Nat) : Token :=
  ⟨kind, ⟨i.offset, (i.advance n).offset⟩, String.ofList (i.rest.take n)⟩

end Input

/-! ### Words inside a line -/

/-- Characters that separate tokens and make up the margin of a line. -/
def isMargin (c : Char) : Bool :=
  c == ' ' || c == '\t' || c == '\x0c' || c == '\r'

/-- The quote characters. -/
def isQuote (c : Char) : Bool :=
  c == '\x22' || c == '\x27'

/-- Digits of a decimal number and the underscores between them. -/
def isDigitOrBreak (c : Char) : Bool :=
  c.isDigit || c == '_'

/-- Number of characters at the front that satisfy `p`. -/
def countWhile (p : Char → Bool) (cs : List Char) : Nat :=
  (cs.takeWhile p).length

/-- How far the body of a string literal reaches, and whether its closing quotes were found. -/
structure StringBody where
  closed : Bool
  length : Nat
deriving Repr, DecidableEq

/-- The body with `n` more characters in front. -/
def StringBody.after (n : Nat) (b : StringBody) : StringBody :=
  ⟨b.closed, n + b.length⟩

/-- The body of a literal in single quotes, given the text after the opening quote. It ends
    with the same quote on the same line; a backslash takes the next character with it. -/
def lineBody (quote : Char) : List Char → StringBody
  | [] => ⟨false, 0⟩
  | ['\\'] => ⟨false, 1⟩
  | '\\' :: _ :: cs => (lineBody quote cs).after 2
  | c :: cs =>
    if c == '\n' then ⟨false, 0⟩
    else if c == quote then ⟨true, 1⟩
    else (lineBody quote cs).after 1

/-- Whether the text goes on with two more of the same quote. -/
def startsWithTwo (quote : Char) : List Char → Bool
  | a :: b :: _ => a == quote && b == quote
  | _ => false

/-- The body of a literal in triple quotes, given the text after the opening quotes. It ends
    with three quotes in a row; a backslash takes the next character with it. -/
def blockBody (quote : Char) : List Char → StringBody
  | [] => ⟨false, 0⟩
  | ['\\'] => ⟨false, 1⟩
  | '\\' :: _ :: cs => (blockBody quote cs).after 2
  | c :: cs =>
    if c == quote && startsWithTwo quote cs then ⟨true, 3⟩
    else (blockBody quote cs).after 1

/-- All of a literal after its first quote. -/
def quoted (quote : Char) (cs : List Char) : StringBody :=
  if startsWithTwo quote cs then (blockBody quote (cs.drop 2)).after 2 else lineBody quote cs

/-- What stands at the front of a text inside a line. Lengths are counted without the first
    character, so nothing at the front is ever empty. -/
inductive Front
  | skipped (more : Nat)
  | token (kind : TokenKind) (more : Nat)
deriving Repr, DecidableEq

/-- The literal with the given marks whose first quote is followed by `cs`; `before`
    characters stand between the first character of the token and that quote, the quote
    included. -/
def stringFront (marks : StringMarks) (quote : Char) (before : Nat) (cs : List Char) : Front :=
  let body := quoted quote cs
  .token (if body.closed then .string marks else .error .unterminatedString)
    (before + body.length)

/-- Numbers in base sixteen, eight or two begin with a zero and one of these letters. -/
def isRadixMark (c : Char) : Bool :=
  c == 'x' || c == 'X' || c == 'o' || c == 'O' || c == 'b' || c == 'B'

/-- The letters that mark a long number. -/
def isLongMark (c : Char) : Bool :=
  c == 'l' || c == 'L'

/-- The letters that mark an imaginary number. -/
def isImaginaryMark (c : Char) : Bool :=
  c == 'j' || c == 'J'

/-- One if the text begins with a character that satisfies `p`, else zero. -/
def countOne (p : Char → Bool) : List Char → Nat
  | c :: _ => if p c then 1 else 0
  | [] => 0

/-- The length of an exponent at the front: a letter, an optional sign and digits, of which
    there is at least one. Zero when there is none. -/
def exponentLength : List Char → Nat
  | e :: d :: cs =>
    if e == 'e' || e == 'E' then
      if d.isDigit then 2 + countWhile isDigitOrBreak cs
      else if (d == '+' || d == '-') && countOne Char.isDigit cs == 1 then
        2 + countWhile isDigitOrBreak cs
      else 0
    else 0
  | _ => 0

/-- Kind and length of the digits of a decimal number with its point, before any exponent.
    The first character is a digit or the point itself. -/
def mantissa (first : Char) (cs : List Char) : NumberKind × Nat :=
  let n := countWhile isDigitOrBreak cs
  if first == '.' then (.float, n)
  else
    match cs.drop n with
    | '.' :: fraction => (.float, n + 1 + countWhile isDigitOrBreak fraction)
    | _ => (.int, n)

/-- A decimal number. Long numbers exist in the second line of versions only. -/
def decimalFront (v : Version) (first : Char) (cs : List Char) : Front :=
  let (kind, n) := mantissa first cs
  let e := exponentLength (cs.drop n)
  let kind := if e == 0 then kind else .float
  let n := n + e
  if countOne isImaginaryMark (cs.drop n) == 1 then .token (.number .imaginary) (n + 1)
  else if kind == .int && !v.is3x then .token (.number kind) (n + countOne isLongMark (cs.drop n))
  else .token (.number kind) n

/-- A number in another base. The text begins with the letter for the base. -/
def radixFront (cs : List Char) : Front :=
  let n := 1 + countWhile (fun c => Text.isHexDigit c || c == '_') (cs.drop 1)
  .token (.number .int) (n + countOne isLongMark (cs.drop n))

/-- A number, in base ten or in another base. -/
def numberFront (v : Version) (first : Char) (cs : List Char) : Front :=
  if first == '0' && countOne isRadixMark cs == 1 then radixFront cs else decimalFront v first cs

/-- A reserved word or an identifier. -/
def wordKind (v : Version) (word : String) : TokenKind :=
  match Keyword.ofText? v word with
  | some k => .keyword k
  | none => .identifier

/-- A reserved word, an identifier, or a string literal with marks. -/
def wordFront (v : Version) (first : Char) (cs : List Char) : Front :=
  let n := countWhile Text.isIdentPart cs
  let letters := first :: cs.take n
  let plain := Front.token (wordKind v (String.ofList letters)) n
  -- A quote right after the letters may make them the marks of a literal.
  match cs.drop n with
  | quote :: after =>
    if isQuote quote then
      match StringMarks.ofChars? letters with
      | some marks =>
        if v.is3x || !marks.formatted then stringFront marks quote (n + 1) after else plain
      | none => plain
    else plain
  | [] => plain

/-- The operators with their spellings, longer spellings first. -/
def operators : List (List Char × TokenKind) := [
  (['*', '*', '='], .operator .doubleStarEqual),
  (['/', '/', '='], .operator .doubleSlashEqual),
  (['>', '>', '='], .operator .rightShiftEqual),
  (['<', '<', '='], .operator .leftShiftEqual),
  (['.', '.', '.'], .operator .ellipsis),
  (['*', '*'], .operator .doubleStar),
  (['/', '/'], .operator .doubleSlash),
  (['<', '<'], .operator .leftShift),
  (['>', '>'], .operator .rightShift),
  (['<', '='], .operator .lessThanOrEqual),
  (['>', '='], .operator .greaterThanOrEqual),
  (['=', '='], .operator .equalEqual),
  (['!', '='], .operator .notEqual),
  (['<', '>'], .operator .notEqual),
  (['-', '>'], .operator .arrow),
  ([':', '='], .operator .walrus),
  (['+', '='], .operator .plusEqual),
  (['-', '='], .operator .minusEqual),
  (['*', '='], .operator .starEqual),
  (['/', '='], .operator .slashEqual),
  (['%', '='], .operator .percentEqual),
  (['@', '='], .operator .atEqual),
  (['&', '='], .operator .ampersandEqual),
  (['|', '='], .operator .pipeEqual),
  (['^', '='], .operator .caretEqual),
  (['('], .operator .lParen),
  ([')'], .operator .rParen),
  (['['], .operator .lBracket),
  ([']'], .operator .rBracket),
  (['\x7b'], .operator .lCurly),
  (['\x7d'], .operator .rCurly),
  ([':'], .operator .colon),
  ([','], .operator .comma),
  ([';'], .operator .semicolon),
  (['.'], .operator .dot),
  (['@'], .operator .at),
  (['\x60'], .operator .backquote),
  (['+'], .operator .plus),
  (['-'], .operator .minus),
  (['*'], .operator .star),
  (['/'], .operator .slash),
  (['%'], .operator .percent),
  (['&'], .operator .ampersand),
  (['|'], .operator .pipe),
  (['^'], .operator .caret),
  (['~'], .operator .tilde),
  (['<'], .operator .lessThan),
  (['>'], .operator .greaterThan),
  (['='], .equal)]

/-- Whether a version has the operator. The walrus came with 3.8; backquotes and the second
    spelling of inequality left with the second line of versions. -/
def operatorExists (v : Version) (entry : List Char × TokenKind) : Bool :=
  match entry.2 with
  | .operator .walrus => v.atLeast 3 8
  | .operator .backquote => !v.is3x
  | _ => if entry.1 == ['<', '>'] then !v.is3x else true

/-- An operator, or a character that begins nothing. -/
def operatorFront (v : Version) (first : Char) (cs : List Char) : Front :=
  match operators.find? fun entry =>
      entry.1.isPrefixOf (first :: cs) && operatorExists v entry with
  | some (spelling, kind) => .token kind (spelling.length - 1)
  | none => .token (.error .unexpectedCharacter) 0

/-- What stands at the front of the text `first :: cs` inside a line, with `depth` brackets
    open. -/
def front (v : Version) (depth : Nat) (first : Char) (cs : List Char) : Front :=
  if isMargin first then .skipped 0
  else if first == '\n' then if depth == 0 then .token .newline 0 else .skipped 0
  else if first == '#' then .skipped (countWhile (· != '\n') cs)
  else
    -- A backslash hides the end of its line.
    match first, cs with
    | '\\', '\n' :: _ => .skipped 1
    | '\\', '\r' :: '\n' :: _ => .skipped 2
    | '\\', '\r' :: _ => .skipped 1
    | _, _ =>
      if first.isDigit || (first == '.' && countOne Char.isDigit cs == 1) then
        numberFront v first cs
      else if isQuote first then stringFront .plain first 0 cs
      else if Text.isIdentStart first then wordFront v first cs
      else operatorFront v first cs

/-! ### Lines and blocks -/

/-- What the lexer remembers of the text it has read. -/
structure Layout where
  /-- Columns of the open blocks, the innermost first. The outermost block stands at column
      zero and is not listed. -/
  blocks : List Nat
  /-- Number of open brackets; one that closes nothing is not counted. -/
  depth : Nat
  /-- Whether the last token, if any, belongs to a line and not to the layout. -/
  lineOpen : Bool
deriving Repr, DecidableEq

namespace Layout

/-- Before the first character. -/
def initial : Layout := ⟨[], 0, false⟩

/-- The column of the innermost block. -/
def column (l : Layout) : Nat :=
  l.blocks.headD 0

/-- The layout after a token of the given kind. -/
def after (l : Layout) (kind : TokenKind) : Layout :=
  let depth := match kind with
    | .operator op =>
      if op.isOpening then l.depth + 1 else if op.isClosing then l.depth - 1 else l.depth
    | _ => l.depth
  { l with depth, lineOpen := !kind.isLayout }

end Layout

/-- The column after a character of the margin. Tabs lead to the next multiple of eight, a
    form feed starts over, and a carriage return does not count. -/
def advanceColumn (column : Nat) (c : Char) : Nat :=
  if c == ' ' then column + 1
  else if c == '\t' then (column / 8 + 1) * 8
  else if c == '\x0c' then 0
  else column

/-- The column that the margin of a line leads to. -/
def marginColumn (cs : List Char) : Nat :=
  (cs.takeWhile isMargin).foldl advanceColumn 0

/-- The input without the blank lines and the lines holding only a comment at its front. -/
def skipBlankLines (i : Input) : Input :=
  let n := countWhile isMargin i.rest
  match _h : i.rest.drop n with
  | '\n' :: _ => skipBlankLines (i.advance (n + 1))
  | '#' :: cs => skipBlankLines (i.advance (n + 1 + countWhile (· != '\n') cs + 1))
  | _ => i
termination_by i.rest.length
decreasing_by
  all_goals
    rw [Input.length_rest_advance]
    have := congrArg List.length _h
    simp only [List.length_drop, List.length_cons] at this
    omega

theorem length_rest_skipBlankLines_le (i : Input) :
    (skipBlankLines i).rest.length ≤ i.rest.length := by
  fun_induction skipBlankLines i with
  | case1 i n cs h ih => exact Nat.le_trans ih (by rw [Input.length_rest_advance]; omega)
  | case2 i n cs h ih => exact Nat.le_trans ih (by rw [Input.length_rest_advance]; omega)
  | case3 i n h => exact Nat.le_refl _

/-- The tokens that settle the indentation of the line at the front, the layout afterwards and
    the input after the margin. A deeper column opens a block; a shallower one closes blocks,
    and has to be the column of one that is left. A line that begins with a backslash is not
    measured. -/
def openLine (l : Layout) (i : Input) : List Token × Layout × Input :=
  let body := i.skipWhile isMargin
  match body.rest with
  | [] => ([], l, body)
  | c :: _ =>
    -- A line that begins with a continuation says nothing about its block.
    if c == '\\' then ([], l, body)
    else
      let column := marginColumn i.rest
      let margin := i.token .indent (countWhile isMargin i.rest)
      if l.column < column then
        ([margin], { l with blocks := column :: l.blocks, lineOpen := false }, body)
      else
        -- Deeper blocks end here, and the column has to be that of a block that is left.
        let closed := l.blocks.takeWhile (column < ·)
        let left := l.blocks.dropWhile (column < ·)
        let dedents := closed.map fun _ => body.token .dedent 0
        let l := { l with blocks := left, lineOpen := l.lineOpen && closed.isEmpty }
        if l.column == column then (dedents, l, body)
        else
          (dedents ++ [{ margin with kind := .error .inconsistentDedent }],
            { l with lineOpen := true }, body)

theorem length_rest_openLine_le (l : Layout) (i : Input) :
    (openLine l i).2.2.rest.length ≤ i.rest.length := by
  have h : (i.skipWhile isMargin).rest.length ≤ i.rest.length := by
    rw [Input.skipWhile, Input.length_rest_advance]
    omega
  simp only [openLine]
  split
  · exact h
  · split
    · exact h
    · split
      · exact h
      · split <;> exact h

/-- The tokens at the end of the text. -/
def finish (l : Layout) (size : Nat) : List Token :=
  let atEnd (kind : TokenKind) : Token := ⟨kind, ⟨size, size⟩, ""⟩
  (if l.lineOpen then [atEnd .newline] else []) ++ l.blocks.map (fun _ => atEnd .dedent)
    ++ [Token.endOfInput size]

/-- The tokens of the unread text. `fresh` says that a line begins and its indentation has not
    been settled. -/
def run (v : Version) (l : Layout) (fresh : Bool) (i : Input) : List Token :=
  if fresh then
    let opened := openLine l (skipBlankLines i)
    opened.1 ++ run v opened.2.1 false opened.2.2
  else
    match _h : i.rest with
    | [] => finish l i.offset
    | first :: cs =>
      match front v l.depth first cs with
      | .skipped more => run v l false (i.advance (more + 1))
      | .token kind more =>
        i.token kind (more + 1)
          :: run v (l.after kind) (kind == .newline) (i.advance (more + 1))
termination_by 2 * i.rest.length + fresh.toNat
decreasing_by
  · rename_i hfresh
    have h₁ := length_rest_openLine_le l (skipBlankLines i)
    have h₂ := length_rest_skipBlankLines_le i
    have h₃ : fresh.toNat = 1 := by simp [hfresh]
    show 2 * (openLine l (skipBlankLines i)).2.2.rest.length + 0 < _
    omega
  · rw [Input.length_rest_advance]
    have := congrArg List.length _h
    simp only [List.length_cons, Bool.toNat_false] at this ⊢
    omega
  · rw [Input.length_rest_advance]
    have := congrArg List.length _h
    have := Bool.toNat_le (kind == TokenKind.newline)
    simp only [List.length_cons] at *
    omega

end PyAtlas.Lexer

namespace PyAtlas

/-- The tokens of a source text under the grammar of a version. -/
def tokenize (v : Version) (source : String) : List Token :=
  Lexer.run v .initial true (.ofChars source.toList)

end PyAtlas
