import PyAtlas.Proofs.Token.Steps
import PyAtlas.Syntax.ParseExpr

/-!
# Literals are read twice alike

The lexer finds the end of a string literal from its opening quote on, and what the literal is worth
is read off the text of the token alone. Both see the same marks, the same quotes and the same body:
a body that is closed ends with the quotes that began it, so taking the quotes off both ends of the
text leaves it. The parser joins the values of adjacent literals, and none of them is missing.

## Key definitions
- `Lexer.delimiter`: the quotes that the lexer looks for.
- `StringLiteral.valueOf`: the value of a body under some marks.

## Key results
- `Lexer.take_quoted`: what the lexer reads of a literal that is closed.
- `StringLiteral.decodeChars?_written`: what is read off the text of a literal.
- `Lexer.front_string`: where the lexer finds a literal.
- `tokenize_decodes`: the two agree on every literal of a text, and the parser joins the values.
-/

namespace PyAtlas

/-- The value of the body of a literal. -/
def StringLiteral.valueOf (marks : StringMarks) (inner : List Char) : List Char :=
  if marks.raw then inner else unescape inner

namespace Lexer

/-! ### What the lexer reads -/

/-- The quotes around a literal, given the text after the first of them. -/
def delimiter (quote : Char) (after : List Char) : List Char :=
  if startsWithTwo quote after then [quote, quote, quote] else [quote]

theorem startsWithTwo_iff {quote : Char} {cs : List Char} :
    startsWithTwo quote cs = true ↔ ∃ rest, cs = quote :: quote :: rest := by
  match cs with
  | [] => simp [startsWithTwo]
  | [a] => simp [startsWithTwo]
  | a :: b :: rest => simp [startsWithTwo]

/-- A body in single quotes that is closed ends with the quote. -/
theorem take_lineBody {quote : Char} {cs : List Char} (h : (lineBody quote cs).closed = true) :
    ∃ inner, cs.take (lineBody quote cs).length = inner ++ [quote] := by
  fun_induction lineBody quote cs with
  | case1 => simp at h
  | case2 => simp at h
  | case3 c cs ih =>
    -- The character behind a backslash is taken with it.
    obtain ⟨inner, hinner⟩ := ih h
    refine ⟨'\\' :: c :: inner, ?_⟩
    simp [StringBody.after, Nat.add_comm 2, hinner]
  | case4 => simp at h
  | case5 c cs _ _ _ hquote => exact ⟨[], by simp [beq_iff_eq.1 hquote]⟩
  | case6 c cs _ _ _ _ ih =>
    obtain ⟨inner, hinner⟩ := ih h
    exact ⟨c :: inner, by simp [StringBody.after, Nat.add_comm 1, hinner]⟩

/-- A body in triple quotes that is closed ends with three of them. -/
theorem take_blockBody {quote : Char} {cs : List Char} (h : (blockBody quote cs).closed = true) :
    ∃ inner, cs.take (blockBody quote cs).length = inner ++ [quote, quote, quote] := by
  fun_induction blockBody quote cs with
  | case1 => simp at h
  | case2 => simp at h
  | case3 c cs ih =>
    obtain ⟨inner, hinner⟩ := ih h
    refine ⟨'\\' :: c :: inner, ?_⟩
    simp [StringBody.after, Nat.add_comm 2, hinner]
  | case4 c cs _ _ hquotes =>
    obtain ⟨hquote, htwo⟩ := Bool.and_eq_true_iff.1 hquotes
    obtain ⟨rest, rfl⟩ := startsWithTwo_iff.1 htwo
    exact ⟨[], by simp [beq_iff_eq.1 hquote]⟩
  | case5 c cs _ _ _ ih =>
    obtain ⟨inner, hinner⟩ := ih h
    exact ⟨c :: inner, by simp [StringBody.after, Nat.add_comm 1, hinner]⟩

/-- A literal that is closed stands between two copies of its quotes. -/
theorem take_quoted {quote : Char} {after : List Char} (h : (quoted quote after).closed = true) :
    ∃ inner, quote :: after.take (quoted quote after).length
      = delimiter quote after ++ inner ++ delimiter quote after := by
  by_cases htwo : startsWithTwo quote after = true
  · simp only [quoted, delimiter, htwo, if_true] at h ⊢
    obtain ⟨rest, rfl⟩ := startsWithTwo_iff.1 htwo
    obtain ⟨inner, hinner⟩ := take_blockBody h
    refine ⟨inner, ?_⟩
    simp only [List.drop_succ_cons, List.drop_zero] at hinner
    simp [StringBody.after, Nat.add_comm 2, hinner]
  · simp only [quoted, delimiter, htwo] at h ⊢
    obtain ⟨inner, hinner⟩ := take_lineBody h
    exact ⟨inner, by simp [hinner]⟩

end Lexer

namespace StringLiteral

/-! ### What is read off the text of a literal -/

theorem between?_append (delimiter inner : List Char) :
    between? delimiter (delimiter ++ inner ++ delimiter) = some inner := by
  have hback : delimiter.isSuffixOf (inner ++ delimiter) = true := by
    rw [List.isSuffixOf_iff_suffix]
    exact List.suffix_append _ _
  simp [between?, hback]

/-- The text tells the quotes that the lexer looked for: two more quotes behind the first are there
    only if they begin a body in triple quotes. -/
theorem delimiterOf_written {quote : Char} {after inner : List Char} {n : Nat}
    (h : quote :: after.take n
      = Lexer.delimiter quote after ++ inner ++ Lexer.delimiter quote after) :
    delimiterOf quote (quote :: after.take n) = Lexer.delimiter quote after := by
  by_cases htwo : Lexer.startsWithTwo quote after = true
  · have htriple : Lexer.delimiter quote after = [quote, quote, quote] := if_pos htwo
    have hfront : List.isPrefixOf [quote, quote, quote]
        ([quote, quote, quote] ++ inner ++ [quote, quote, quote]) = true := by
      rw [List.isPrefixOf_iff_prefix, List.append_assoc]
      exact List.prefix_append _ _
    have hsize : 6 ≤ Text.byteSize ([quote, quote, quote] ++ inner ++ [quote, quote, quote]) := by
      have hlength := Text.length_le_byteSize
        ([quote, quote, quote] ++ inner ++ [quote, quote, quote])
      simp only [List.length_append, List.length_cons, List.length_nil] at hlength
      omega
    rw [h, htriple, delimiterOf, hfront, decide_eq_true hsize]
    rfl
  · have hsingle : Lexer.delimiter quote after = [quote] := if_neg htwo
    have hfront : List.isPrefixOf [quote, quote, quote] (quote :: after.take n) = false := by
      rw [Bool.eq_false_iff]
      intro hprefix
      obtain ⟨rest, hrest⟩ := List.isPrefixOf_iff_prefix.1 hprefix
      have htake : quote :: quote :: rest = after.take n := (List.cons.inj hrest).2
      -- The text in single quotes would go on with two more of them behind the first.
      refine htwo (Lexer.startsWithTwo_iff.2 ⟨rest ++ after.drop n, ?_⟩)
      calc after = after.take n ++ after.drop n := (List.take_append_drop n after).symm
        _ = quote :: quote :: (rest ++ after.drop n) := by rw [← htake]; rfl
    rw [delimiterOf, hfront, hsingle]
    rfl

/-- What stands before the first quote of a text, and the quote with all behind it. -/
theorem takeWhile_written {letters : List Char} {quote : Char} (body : List Char)
    (hletters : ∀ c ∈ letters, isQuote c = false) (hquote : isQuote quote = true) :
    (letters ++ quote :: body).takeWhile (fun c => !isQuote c) = letters
      ∧ (letters ++ quote :: body).dropWhile (fun c => !isQuote c) = quote :: body := by
  have hpos : ∀ c ∈ letters, (!isQuote c) = true := fun c hc => by simp [hletters c hc]
  constructor
  · rw [List.takeWhile_append_of_pos hpos, List.takeWhile_cons_of_neg (by simp [hquote]),
      List.append_nil]
  · rw [List.dropWhile_append_of_pos hpos, List.dropWhile_cons_of_neg (by simp [hquote])]

/-- The marks, the quotes and the body are found in the text that they make up. -/
theorem decodeChars?_written {letters inner body delimiter : List Char} {quote : Char}
    {marks : StringMarks} (hletters : ∀ c ∈ letters, isQuote c = false)
    (hquote : isQuote quote = true) (hmarks : StringMarks.ofChars? letters = some marks)
    (hbody : quote :: body = delimiter ++ inner ++ delimiter)
    (hdelimiter : delimiterOf quote (quote :: body) = delimiter) :
    decodeChars? (letters ++ quote :: body) = some (marks, valueOf marks inner) := by
  obtain ⟨htake, hdrop⟩ := takeWhile_written body hletters hquote
  have hbetween : between? delimiter (quote :: body) = some inner := by
    rw [hbody, between?_append]
  simp only [decodeChars?, htake, hdrop, List.head?_cons, hmarks, Option.bind_eq_bind,
    Option.bind_some, hdelimiter, hbetween]
  rfl

end StringLiteral

/-! ### Where the lexer finds literals -/

/-- Whether a token is a string literal. -/
def TokenKind.isString : TokenKind → Bool
  | .string _ => true
  | _ => false

namespace Lexer

/-- What the lexer finds at the front of a text where a literal with some marks stands. -/
structure FindsLiteral (first : Char) (cs : List Char) (marks : StringMarks) (more : Nat)
    (letters : List Char) (quote : Char) (after : List Char) : Prop where
  text : first :: cs = letters ++ quote :: after
  opens : isQuote quote = true
  unquoted : ∀ c ∈ letters, isQuote c = false
  marked : StringMarks.ofChars? letters = some marks
  closed : (quoted quote after).closed = true
  size : more = letters.length + (quoted quote after).length

theorem stringFront_eq_string {marks marks' : StringMarks} {quote : Char} {n more : Nat}
    {cs : List Char} (h : stringFront marks' quote n cs = .token (.string marks) more) :
    marks' = marks ∧ (quoted quote cs).closed = true ∧ more = n + (quoted quote cs).length := by
  simp only [stringFront, Front.token.injEq] at h
  obtain ⟨hkind, hmore⟩ := h
  split at hkind
  · rename_i hclosed
    cases hkind
    exact ⟨rfl, hclosed, hmore.symm⟩
  · cases hkind

theorem wordFront_string {v : Version} {first : Char} {cs : List Char} {marks : StringMarks}
    {more : Nat} (hfirst : Text.isIdentStart first = true)
    (h : wordFront v first cs = .token (.string marks) more) :
    ∃ letters quote after, FindsLiteral first cs marks more letters quote after := by
  -- Only letters that mark a literal, right before a quote, begin one.
  rcases wordFront_cases v first cs with ⟨letters, quote, marks', after, rfl, hletters, hmarks⟩
    | ⟨letters, rest, rfl, hletters, hends, hnone⟩
  · rw [wordFront_literal hletters hmarks] at h
    obtain ⟨rfl, hclosed, hmore⟩ := stringFront_eq_string h
    exact ⟨first :: letters, quote, after, rfl, hmarks.isQuote,
      isQuote_of_mem_letters hfirst hletters, hmarks.marked, hclosed, hmore⟩
  · rw [wordFront_name hletters hends hnone] at h
    have hkind := (Front.token.inj h).1
    rcases wordKind_cases v (String.ofList (first :: letters)) with hword | ⟨_, hword⟩ <;>
      cases hword.symm.trans hkind

/-- A literal begins with its quote, or with letters right before it that mark it. -/
theorem front_string {v : Version} {depth more : Nat} {first : Char} {cs : List Char}
    {marks : StringMarks} (h : front v depth first cs = .token (.string marks) more) :
    ∃ letters quote after, FindsLiteral first cs marks more letters quote after := by
  have hoperators : ∀ entry ∈ operators, entry.2.isString = false := by decide
  revert h
  refine front_elim (motive := fun f => f v = .token (.string marks) more →
    ∃ letters quote after, FindsLiteral first cs marks more letters quote after)
    ?margin ?newline ?lineFeed ?comment ?continuation ?number ?string ?word ?operator
  case margin | newline | lineFeed | comment | continuation => nofun
  case number =>
    intro h
    obtain ⟨_, _, hfront⟩ := exists_numberFront v first cs
    cases hfront.symm.trans h
  case string =>
    intro hquote h
    obtain ⟨rfl, hclosed, hmore⟩ := stringFront_eq_string h
    exact ⟨[], first, cs, rfl, hquote, List.forall_mem_nil _, by decide, hclosed, hmore⟩
  case word => exact wordFront_string
  case operator =>
    intro h
    rcases operatorFront_cases v first cs with ⟨entry, hentry, -, hfront⟩ | hfront
    · have hkind := (Front.token.inj (hfront.symm.trans h)).1
      have hstring := hoperators entry hentry
      rw [hkind] at hstring
      cases hstring
    · cases hfront.symm.trans h

/-- What is read off the text of a literal that the lexer found. -/
theorem FindsLiteral.decodes {first : Char} {cs letters after : List Char} {marks : StringMarks}
    {more : Nat} {quote : Char} (h : FindsLiteral first cs marks more letters quote after) :
    ∃ inner, (first :: cs).take (more + 1)
        = letters ++ (delimiter quote after ++ inner ++ delimiter quote after)
      ∧ StringLiteral.delimiterOf quote
          (((first :: cs).take (more + 1)).dropWhile fun c => !StringLiteral.isQuote c)
        = delimiter quote after
      ∧ StringLiteral.decodeChars? ((first :: cs).take (more + 1))
        = some (marks, StringLiteral.valueOf marks inner) := by
  obtain ⟨inner, hinner⟩ := take_quoted h.closed
  have htext : (first :: cs).take (more + 1)
      = letters ++ quote :: after.take (quoted quote after).length := by
    have hlength : letters.length + (quoted quote after).length + 1
        = letters.length + ((quoted quote after).length + 1) := by omega
    rw [h.text, h.size, hlength, List.take_length_add_append, List.take_succ_cons]
  have hdelimiter := StringLiteral.delimiterOf_written hinner
  obtain ⟨-, hdrop⟩ := StringLiteral.takeWhile_written
    (after.take (quoted quote after).length) h.unquoted h.opens
  refine ⟨inner, ?_, ?_, ?_⟩
  · rw [htext, hinner]
  · rw [htext, hdrop]
    exact hdelimiter
  · rw [htext]
    exact StringLiteral.decodeChars?_written h.unquoted h.opens h.marked hinner hdelimiter

end Lexer

/-! ### Adjacent literals -/

namespace Parser

/-- One more literal, if there is one. -/
theorem stringStep_eq (value : String) (span : Span) (s : ParserState) :
    stringStep (value, span) s =
      if s.cursor.kind.isString then
        (.again (value ++ stringValue s.cursor.peek, span.merge s.cursor.peek.span),
          { s with cursor := s.cursor.advance })
      else (.finished (value, span), s) := by
  show (match s.cursor.peek.kind with
    | .string _ => _
    | _ => _ : Parser (LoopStep (String × Span) (String × Span))) s = _
  have hkind : s.cursor.kind = s.cursor.peek.kind := rfl
  rw [hkind]
  cases s.cursor.peek.kind <;> rfl

/-- The values of literals in a row are joined. -/
theorem loop_stringStep (value : String) (span : Span) (s : ParserState) :
    (loop id stringStep (value, span) s).1.1
      = value ++ String.join ((s.cursor.after.takeWhile (·.kind.isString)).map stringValue) := by
  obtain ⟨⟨before, after, size⟩, errors⟩ := s
  induction after generalizing value span before with
  | nil =>
    rw [loop_eq, stringStep_eq]
    simp [Cursor.kind, Cursor.kindAt, Cursor.peekNth, TokenKind.isString]
  | cons t ts ih =>
    have hpeek : Cursor.peek ⟨before, t :: ts, size⟩ = t := rfl
    have hkind : Cursor.kind ⟨before, t :: ts, size⟩ = t.kind := rfl
    rw [loop_eq, stringStep_eq]
    cases hstring : t.kind.isString with
    | false => simp [hkind, hstring]
    | true =>
      have hless : ts.length < ts.length + 1 := Nat.lt_succ_self _
      have hrest := ih (value ++ stringValue t) (span.merge t.span) (t :: before)
      simp only [hkind, hpeek, hstring, if_true, Cursor.advance, ParserState.remaining,
        Cursor.remaining, List.length_cons, hless, hrest]
      rw [List.takeWhile_cons_of_pos (by simp [hstring]), List.map_cons, String.join_cons,
        String.append_assoc]

/-- What the parser makes of a literal and of those that follow it. -/
theorem operandAfter_string {v : Version} {expr : ExprParser} {first : Token}
    {marks : StringMarks} (h : first.kind = .string marks) (s : ParserState) :
    ∃ span, (operandAfter v expr first s).1
      = .str (String.join
          ((first :: s.cursor.after.takeWhile (·.kind.isString)).map stringValue)) marks span := by
  refine ⟨(moreStrings first s).1.2, ?_⟩
  have hvalue := loop_stringStep (stringValue first) first.span s
  rw [List.map_cons, String.join_cons, ← hvalue, operandAfter, h]
  rfl

/-- Tokens that all have a value, and the values that the parser takes from them. -/
theorem exists_literals {ts : List Token}
    (h : ∀ t ∈ ts, ∃ literal, StringLiteral.decode? t.text = some literal) :
    ∃ literals : List StringLiteral, ts.map (fun t => StringLiteral.decode? t.text) = literals.map some
      ∧ ts.map stringValue = literals.map (·.value) := by
  induction ts with
  | nil => exact ⟨[], rfl, rfl⟩
  | cons t ts ih =>
    obtain ⟨⟨literal, hliteral⟩, hts⟩ := List.forall_mem_cons.1 h
    obtain ⟨literals, hall, hvalues⟩ := ih hts
    have hvalue : stringValue t = literal.value := by rw [stringValue, hliteral]; rfl
    refine ⟨literal :: literals, ?_, ?_⟩
    · rw [List.map_cons, List.map_cons, hliteral, hall]
    · rw [List.map_cons, List.map_cons, hvalue, hvalues]

end Parser

/-! ### The literals of a text -/

namespace Lexer

/-- The text of a token is read as the lexer read it: with the same marks, the same quotes and the
    same body. -/
structure ReadAlike (source : String) (t : Token) (marks : StringMarks)
    (before letters : List Char) (quote : Char) (after inner : List Char) : Prop where
  source_eq : source.toList = before ++ (letters ++ quote :: after)
  start_eq : t.span.start = Text.byteSize before
  text_eq : t.text.toList = letters ++ (delimiter quote after ++ inner ++ delimiter quote after)
  delimiter_eq : StringLiteral.delimiterOf quote
    (t.text.toList.dropWhile fun c => !StringLiteral.isQuote c) = delimiter quote after
  decoded : StringLiteral.decode? t.text
    = some ⟨marks, String.ofList (StringLiteral.valueOf marks inner)⟩

theorem exists_readAlike {v : Version} {source : String} {t : Token} {marks : StringMarks}
    (ht : t ∈ tokenize v source) (hkind : t.kind = .string marks) :
    ∃ before letters quote after inner,
      ReadAlike source t marks before letters quote after inner := by
  obtain ⟨before, first, cs, depth, more, hrest, hstart, hfront, htext⟩ :=
    exists_front_of_mem_tokenize ht (by rw [hkind]; rfl)
  rw [hkind] at hfront
  obtain ⟨letters, quote, after, hfound⟩ := front_string hfront
  obtain ⟨inner, hinner, hdelimiter, hdecoded⟩ := hfound.decodes
  rw [← htext] at hinner hdelimiter hdecoded
  refine ⟨before, letters, quote, after, inner, ?_, hstart, hinner, hdelimiter, ?_⟩
  · rw [← hfound.text]
    exact hrest
  · rw [StringLiteral.decode?, hdecoded]
    rfl

end Lexer

open Lexer in
/-- The lexer and the reading of a single text agree on every literal, so each literal has a value,
    and the parser joins the values of a literal and of those that follow it. -/
theorem tokenize_decodes (v : Version) (source : String) :
    (∀ t ∈ tokenize v source, ∀ marks, t.kind = .string marks →
      ∃ before letters quote after inner,
        ReadAlike source t marks before letters quote after inner)
    ∧ ∀ (expr : Parser.ExprParser) (s : ParserState), s.cursor.tokens = tokenize v source →
      ∀ first ∈ tokenize v source, ∀ marks, first.kind = .string marks →
        ∃ (literals : List StringLiteral) (span : Span),
          (first :: s.cursor.after.takeWhile (·.kind.isString)).map
            (fun t => StringLiteral.decode? t.text) = literals.map some
          ∧ (Parser.operandAfter v expr first s).1
            = .str (String.join (literals.map (·.value))) marks span := by
  refine ⟨fun t ht marks hkind => exists_readAlike ht hkind, ?_⟩
  intro expr s htokens first hfirst marks hkind
  have hstrings : ∀ t ∈ first :: s.cursor.after.takeWhile (·.kind.isString),
      t ∈ tokenize v source ∧ t.kind.isString = true := by
    refine List.forall_mem_cons.2 ⟨⟨hfirst, by rw [hkind]; rfl⟩, fun t ht => ⟨?_, ?_⟩⟩
    · rw [← htokens, Cursor.tokens]
      exact List.mem_append_right _ (List.takeWhile_subset _ ht)
    · exact List.all_eq_true.1 List.all_takeWhile t ht
  -- All tokens that are joined are literals of the text, so each has a value.
  obtain ⟨literals, hliterals, hvalues⟩ := Parser.exists_literals fun t ht => by
    obtain ⟨hmem, hstring⟩ := hstrings t ht
    obtain ⟨marks', hmarks'⟩ : ∃ marks', t.kind = .string marks' := by
      cases hk : t.kind with
      | string marks' => exact ⟨marks', rfl⟩
      | _ => rw [hk] at hstring; cases hstring
    obtain ⟨_, _, _, _, inner, halike⟩ := exists_readAlike hmem hmarks'
    exact ⟨_, halike.decoded⟩
  obtain ⟨span, hspan⟩ : ∃ span, (Parser.operandAfter v expr first s).1 = _ :=
    Parser.operandAfter_string hkind s
  exact ⟨literals, span, hliterals, by rw [hspan, hvalues]⟩

end PyAtlas
