import PyAtlas.Token.Lexer

/-!
# What stands at the front of a text

The first character of a text inside a line decides what is read. Margins, comments and hidden ends
of lines are passed over, a line feed ends the line outside of brackets, and with every other
character a word begins. The version matters for words only: whether there is a word does not depend
on it.

`front_elim` says all that the front of a text can be. What holds of all fronts is proved from it,
with what is known of numbers, letters and operators, and `front` is not unfolded again.

## Key definitions
- `Continues`: what ends a line behind a backslash.
- `Lexer.startsWord`: the characters that words begin with.
- `Lexer.AreMarks`: when letters are the marks of a literal.
- `Lexer.FrontToken`: the tokens that there may be.

## Key results
- `Lexer.front_of_startsWord`: the words that there are.
- `Lexer.front_continues`, `Lexer.front_backslash`: what a backslash inside a line is.
- `Lexer.front_elim`: the front of a text by cases.
- `Lexer.wordFront_literal`, `Lexer.wordFront_name`, `Lexer.wordFront_cases`: what letters are.
- `Lexer.exists_numberFront`, `Lexer.operatorFront_cases`: what all other words are.
- `Lexer.frontToken_of_front`, `Lexer.front_eq_skipped`: what is read and what is passed over.
-/

namespace PyAtlas

/-- What ends a line behind a backslash, in front of the text `rest`. A carriage return and a line
    feed are one ending. -/
def Continues (ending rest : List Char) : Prop :=
  ending = ['\n'] ∨ ending = ['\r', '\n'] ∨ ending = ['\r'] ∧ rest.head? ≠ some '\n'

theorem Continues.congr {ending rest rest' : List Char} (h : Continues ending rest)
    (heq : rest.head? = rest'.head?) : Continues ending rest' :=
  h.imp_right (Or.imp_right (And.imp_right fun hrest => heq ▸ hrest))

namespace Lexer

variable {v : Version} {depth : Nat} {first : Char} {cs : List Char}

/-! ### The first character -/

/-- The character begins a word: it is no margin, ends no line and hides none. -/
def startsWord (c : Char) : Bool :=
  !(isMargin c || c == '\n' || c == '#' || c == '\\')

theorem startsWord_iff {c : Char} :
    startsWord c = true ↔ isMargin c = false ∧ c ≠ '\n' ∧ c ≠ '#' ∧ c ≠ '\\' := by
  simp only [startsWord, Bool.not_eq_true', Bool.or_eq_false_iff, beq_eq_false_iff_ne, and_assoc]

theorem not_startsWord {c : Char} (h : ¬ startsWord c = true) :
    isMargin c = true ∨ c = '\n' ∨ c = '#' ∨ c = '\\' := by
  simpa only [startsWord, Bool.not_eq_true', Bool.not_eq_false, Bool.or_eq_true, beq_iff_eq,
    or_assoc] using h

/-- What stands at the front of a text that begins with a word. -/
theorem front_of_startsWord {first : Char} (h : startsWord first = true) (v : Version)
    (depth : Nat) (cs : List Char) :
    front v depth first cs =
      if first.isDigit || (first == '.' && countOne Char.isDigit cs == 1) then
        numberFront v first cs
      else if isQuote first then stringFront .plain first 0 cs
      else if Text.isIdentStart first then wordFront v first cs
      else operatorFront v first cs := by
  obtain ⟨hmargin, hnewline, hcomment, hbackslash⟩ := startsWord_iff.1 h
  simp only [front]
  rw [if_neg (by simp [hmargin]), if_neg (by simp [hnewline]), if_neg (by simp [hcomment])]
  split
  · exact absurd rfl hbackslash
  · exact absurd rfl hbackslash
  · exact absurd rfl hbackslash
  · rfl

theorem front_margin (h : isMargin first = true) (v : Version) (depth : Nat) (cs : List Char) :
    front v depth first cs = .skipped 0 := by
  simp only [front, if_pos h]

/-! ### Backslashes -/

/-- Behind a backslash a line ends or not. -/
theorem continues_or_not (cs : List Char) :
    (∃ ending rest, cs = ending ++ rest ∧ Continues ending rest)
      ∨ cs.head? ≠ some '\n' ∧ cs.head? ≠ some '\r' := by
  cases cs with
  | nil => exact .inr ⟨nofun, nofun⟩
  | cons c cs =>
    by_cases hfeed : c = '\n'
    · exact .inl ⟨['\n'], cs, by rw [hfeed]; rfl, .inl rfl⟩
    by_cases hreturn : c = '\r'
    · by_cases hnext : cs.head? = some '\n'
      · obtain ⟨rest, rfl⟩ := List.head?_eq_some_iff.1 hnext
        exact .inl ⟨['\r', '\n'], rest, by rw [hreturn]; rfl, .inr (.inl rfl)⟩
      · exact .inl ⟨['\r'], cs, by rw [hreturn]; rfl, .inr (.inr ⟨rfl, hnext⟩)⟩
    · exact .inr ⟨by simpa using hfeed, by simpa using hreturn⟩

/-- A backslash at the end of its line is passed over with that end. -/
theorem front_continues {ending rest : List Char} (h : Continues ending rest) (depth : Nat) :
    front v depth '\\' (ending ++ rest) = .skipped ending.length := by
  rcases h with rfl | rfl | ⟨rfl, hrest⟩
  · rfl
  · rfl
  · cases rest with
    | nil => rfl
    | cons c rest =>
      have hc : c ≠ '\n' := fun heq => hrest (congrArg some heq)
      simp [front, isMargin, hc]

/-- A backslash elsewhere is looked for among the operators. -/
theorem front_backslash_eq (hfeed : cs.head? ≠ some '\n') (hreturn : cs.head? ≠ some '\r')
    (v : Version) (depth : Nat) : front v depth '\\' cs = operatorFront v '\\' cs := by
  have hident : Text.isIdentStart '\\' = false := by decide +kernel
  cases cs with
  | nil => simp [front, isMargin, isQuote, hident, Char.isDigit]
  | cons c cs =>
    have hfeed : c ≠ '\n' := fun heq => hfeed (congrArg some heq)
    have hreturn : c ≠ '\r' := fun heq => hreturn (congrArg some heq)
    simp [front, isMargin, isQuote, hident, hfeed, hreturn]

/-- A backslash inside a line is none of the language. -/
theorem front_backslash (hfeed : cs.head? ≠ some '\n') (hreturn : cs.head? ≠ some '\r')
    (depth : Nat) : front v depth '\\' cs = .token (.error .unexpectedCharacter) 0 := by
  have hfind : operators.find? (fun entry =>
      entry.1.isPrefixOf ('\\' :: cs) && operatorExists v entry) = none := by
    simp [operators]
  rw [front_backslash_eq hfeed hreturn, operatorFront, hfind]

/-! ### All that there may be -/

/-- What the front of a text may be. The version decides within words only, so fronts of the same
    text under different versions are of the same case. -/
theorem front_elim {motive : (Version → Front) → Prop}
    (margin : isMargin first = true → motive fun _ => .skipped 0)
    (newline : first = '\n' → depth = 0 → motive fun _ => .token .newline 0)
    (lineFeed : first = '\n' → 0 < depth → motive fun _ => .skipped 0)
    (comment : first = '#' → motive fun _ => .skipped (countWhile (· != '\n') cs))
    (continuation : ∀ ending rest, first = '\\' → cs = ending ++ rest → Continues ending rest →
      motive fun _ => .skipped ending.length)
    (number : motive fun v => numberFront v first cs)
    (string : isQuote first = true → motive fun _ => stringFront .plain first 0 cs)
    (word : Text.isIdentStart first = true → motive fun v => wordFront v first cs)
    (operator : motive fun v => operatorFront v first cs) :
    motive fun v => front v depth first cs := by
  -- The tests of words in their order, and then the characters that begin none.
  by_cases hstarts : startsWord first = true
  · simp only [front_of_startsWord hstarts]
    by_cases hnumber : (first.isDigit || (first == '.' && countOne Char.isDigit cs == 1)) = true
    · simpa only [if_pos hnumber] using number
    by_cases hquote : isQuote first = true
    · simpa only [if_neg hnumber, if_pos hquote] using string hquote
    by_cases hident : Text.isIdentStart first = true
    · simpa only [if_neg hnumber, if_neg hquote, if_pos hident] using word hident
    · simpa only [if_neg hnumber, if_neg hquote, if_neg hident] using operator
  · rcases not_startsWord hstarts with hmargin | rfl | rfl | rfl
    · simpa only [front_margin hmargin] using margin hmargin
    · cases depth with
      | zero => exact newline rfl rfl
      | succ depth => exact lineFeed rfl (Nat.succ_pos depth)
    · exact comment rfl
    · rcases continues_or_not cs with ⟨ending, rest, rfl, hends⟩ | ⟨hfeed, hreturn⟩
      · simpa only [front_continues hends] using continuation ending rest rfl rfl hends
      · simpa only [front_backslash_eq hfeed hreturn] using operator

/-! ### Numbers -/

theorem exists_numberFront (v : Version) (first : Char) (cs : List Char) :
    ∃ kind more, numberFront v first cs = .token (.number kind) more := by
  simp only [numberFront, radixFront, decimalFront]
  repeat' split
  all_goals exact ⟨_, _, rfl⟩

/-! ### Letters -/

theorem wordKind_cases (v : Version) (word : String) :
    wordKind v word = .identifier ∨ ∃ keyword, wordKind v word = .keyword keyword := by
  rw [wordKind]
  split
  · exact .inr ⟨_, rfl⟩
  · exact .inl rfl

theorem ne_backslash_of_isQuote {quote : Char} (hquote : isQuote quote = true) : quote ≠ '\\' := by
  rintro rfl
  cases hquote

theorem ne_newline_of_isQuote {quote : Char} (hquote : isQuote quote = true) : quote ≠ '\n' := by
  rintro rfl
  cases hquote

/-- Letters and digits are no quotes. -/
theorem isQuote_of_isIdentPart {c : Char} (h : Text.isIdentPart c = true) : isQuote c = false := by
  have hquotes : Text.isIdentPart '\x22' = false ∧ Text.isIdentPart '\x27' = false := by
    decide +kernel
  rw [isQuote, Bool.or_eq_false_iff, beq_eq_false_iff_ne, beq_eq_false_iff_ne]
  constructor
  · rintro rfl
    rw [hquotes.1] at h
    cases h
  · rintro rfl
    rw [hquotes.2] at h
    cases h

/-- In particular none of the letters at the front of a text is one. -/
theorem isQuote_of_mem_letters {letters : List Char} (hfirst : Text.isIdentStart first = true)
    (hletters : ∀ c ∈ letters, Text.isIdentPart c = true) :
    ∀ c ∈ first :: letters, isQuote c = false :=
  List.forall_mem_cons.2 ⟨isQuote_of_isIdentPart (Text.isIdentPart_of_isIdentStart hfirst),
    fun c hc => isQuote_of_isIdentPart (hletters c hc)⟩

/-- No letter or digit stands at the front of the text. -/
def NoLetterNext (rest : List Char) : Prop :=
  ∀ c ∈ rest.head?, Text.isIdentPart c = false

theorem noLetterNext_quote {quote : Char} (h : isQuote quote = true) (after : List Char) :
    NoLetterNext (quote :: after) := by
  rintro c ⟨⟩
  rw [Bool.eq_false_iff]
  intro hpart
  rw [isQuote_of_isIdentPart hpart] at h
  cases h

theorem countWhile_letters {letters rest : List Char}
    (hletters : ∀ c ∈ letters, Text.isIdentPart c = true) (hends : NoLetterNext rest) :
    countWhile Text.isIdentPart (letters ++ rest) = letters.length := by
  rw [countWhile, List.takeWhile_append_of_pos hletters]
  cases rest with
  | nil => rw [List.takeWhile_nil, List.append_nil]
  | cons c rest =>
    rw [List.takeWhile_cons_of_neg (Bool.eq_false_iff.1 (hends c rfl)), List.append_nil]

/-- A text is some letters, if any, and a text in front of which they end. -/
theorem exists_letters (cs : List Char) : ∃ letters rest, cs = letters ++ rest
    ∧ (∀ c ∈ letters, Text.isIdentPart c = true) ∧ NoLetterNext rest := by
  refine ⟨_, _, List.takeWhile_append_dropWhile.symm, List.all_eq_true.1 List.all_takeWhile, ?_⟩
  intro c hc
  have hhead := List.head?_dropWhile_not Text.isIdentPart cs
  rw [hc] at hhead
  simpa using hhead

/-- In front of the quote the letters are the marks of a literal. -/
structure AreMarks (v : Version) (letters : List Char) (quote : Char) (marks : StringMarks) :
    Prop where
  isQuote : isQuote quote = true
  marked : StringMarks.ofChars? letters = some marks
  exist : (v.is3x || !marks.formatted) = true

/-- Letters that are marks belong to the literal behind them. -/
theorem wordFront_literal {letters : List Char} {quote : Char} {marks : StringMarks}
    (hletters : ∀ c ∈ letters, Text.isIdentPart c = true)
    (h : AreMarks v (first :: letters) quote marks) (after : List Char) :
    wordFront v first (letters ++ quote :: after)
      = stringFront marks quote (letters.length + 1) after := by
  simp only [wordFront, countWhile_letters hletters (noLetterNext_quote h.isQuote after),
    List.take_left, List.drop_left, h.isQuote, h.marked, h.exist, if_true]

/-- Other letters are a word. -/
theorem wordFront_name {letters rest : List Char}
    (hletters : ∀ c ∈ letters, Text.isIdentPart c = true) (hends : NoLetterNext rest)
    (hnone : ∀ quote ∈ rest.head?, ∀ marks, ¬ AreMarks v (first :: letters) quote marks) :
    wordFront v first (letters ++ rest)
      = .token (wordKind v (String.ofList (first :: letters))) letters.length := by
  simp only [wordFront, countWhile_letters hletters hends, List.take_left, List.drop_left]
  split
  · split
    · rename_i hquote
      split
      · rename_i hmarked
        split
        · rename_i hexist
          exact absurd ⟨hquote, hmarked, hexist⟩ (hnone _ rfl _)
        · rfl
      · rfl
    · rfl
  · rfl

/-- Letters are the marks of a literal, or else a word. -/
theorem wordFront_cases (v : Version) (first : Char) (cs : List Char) :
    (∃ letters quote marks after, cs = letters ++ quote :: after
        ∧ (∀ c ∈ letters, Text.isIdentPart c = true)
        ∧ AreMarks v (first :: letters) quote marks)
      ∨ ∃ letters rest, cs = letters ++ rest
        ∧ (∀ c ∈ letters, Text.isIdentPart c = true) ∧ NoLetterNext rest
        ∧ ∀ quote ∈ rest.head?, ∀ marks, ¬ AreMarks v (first :: letters) quote marks := by
  -- What the letters are is told by the character behind them.
  obtain ⟨letters, rest, hcs, hletters, hends⟩ := exists_letters cs
  by_cases hmarks : ∃ quote ∈ rest.head?, ∃ marks, AreMarks v (first :: letters) quote marks
  · obtain ⟨quote, hquote, marks, hmarks⟩ := hmarks
    obtain ⟨after, rfl⟩ := List.head?_eq_some_iff.1 hquote
    exact .inl ⟨letters, quote, marks, after, hcs, hletters, hmarks⟩
  · exact .inr ⟨letters, rest, hcs, hletters, hends, fun quote hquote marks h =>
      hmarks ⟨quote, hquote, marks, h⟩⟩

/-! ### Operators -/

/-- What is no number and no word is an operator, or no character of the language. -/
theorem operatorFront_cases (v : Version) (first : Char) (cs : List Char) :
    (∃ entry ∈ operators, entry.1.isPrefixOf (first :: cs) = true
        ∧ operatorFront v first cs = .token entry.2 (entry.1.length - 1))
      ∨ operatorFront v first cs = .token (.error .unexpectedCharacter) 0 := by
  rw [operatorFront]
  split
  · rename_i spelling kind hfound
    have hfits := List.find?_some hfound
    exact .inl ⟨_, List.mem_of_find?_eq_some hfound, (Bool.and_eq_true_iff.1 hfits).1, rfl⟩
  · exact .inr rfl

/-! ### What is read and what is passed over -/

/-- The tokens that the front of a text may be: the end of a line, and words. -/
inductive FrontToken (depth : Nat) (first : Char) (cs : List Char) :
    TokenKind → Nat → Prop
  | newline : first = '\n' → depth = 0 → FrontToken depth first cs .newline 0
  | number (kind : NumberKind) (more : Nat) : FrontToken depth first cs (.number kind) more
  | string (marks : StringMarks) (more : Nat) : FrontToken depth first cs (.string marks) more
  | unterminated (more : Nat) : FrontToken depth first cs (.error .unterminatedString) more
  | identifier : Text.isIdentStart first = true →
    FrontToken depth first cs .identifier (countWhile Text.isIdentPart cs)
  | keyword (keyword : Keyword) : Text.isIdentStart first = true →
    FrontToken depth first cs (.keyword keyword) (countWhile Text.isIdentPart cs)
  | operator {entry : List Char × TokenKind} :
    entry ∈ operators → entry.1.isPrefixOf (first :: cs) = true →
    FrontToken depth first cs entry.2 (entry.1.length - 1)
  | stray : FrontToken depth first cs (.error .unexpectedCharacter) 0

theorem frontToken_stringFront {marks : StringMarks} {quote : Char} {before more : Nat}
    {after : List Char} {kind : TokenKind}
    (h : stringFront marks quote before after = .token kind more) :
    FrontToken depth first cs kind more := by
  obtain ⟨rfl, rfl⟩ := Front.token.inj h
  split
  · exact .string _ _
  · exact .unterminated _

theorem frontToken_of_front {kind : TokenKind} {more : Nat}
    (h : front v depth first cs = .token kind more) : FrontToken depth first cs kind more := by
  revert h
  refine front_elim (motive := fun f => f v = .token kind more →
    FrontToken depth first cs kind more) ?margin ?newline ?lineFeed ?comment ?continuation
    ?number ?string ?word ?operator
  case margin | lineFeed | comment | continuation => nofun
  case newline =>
    rintro hfirst hdepth ⟨⟩
    exact .newline hfirst hdepth
  case number =>
    intro h
    obtain ⟨_, _, hfront⟩ := exists_numberFront v first cs
    cases hfront.symm.trans h
    exact .number _ _
  case string => exact fun _ => frontToken_stringFront
  case word =>
    intro hident h
    rcases wordFront_cases v first cs with ⟨letters, quote, marks, after, rfl, hletters, hmarks⟩
      | ⟨letters, rest, rfl, hletters, hends, hnone⟩
    · exact frontToken_stringFront ((wordFront_literal hletters hmarks after).symm.trans h)
    · obtain ⟨rfl, rfl⟩ :=
        Front.token.inj ((wordFront_name hletters hends hnone).symm.trans h)
      rw [← countWhile_letters hletters hends]
      rcases wordKind_cases v (String.ofList (first :: letters)) with hkind | ⟨keyword, hkind⟩
      · rw [hkind]
        exact .identifier hident
      · rw [hkind]
        exact .keyword keyword hident
  case operator =>
    intro h
    rcases operatorFront_cases v first cs with ⟨entry, hentry, hfits, hfront⟩ | hfront
    · cases hfront.symm.trans h
      exact .operator hentry hfits
    · cases hfront.symm.trans h
      exact .stray

/-- Words are never passed over. -/
theorem front_eq_skipped {more : Nat} (h : front v depth first cs = .skipped more) :
    (isMargin first = true ∧ more = 0) ∨ (first = '\n' ∧ 0 < depth ∧ more = 0)
      ∨ (first = '#' ∧ more = countWhile (· != '\n') cs)
      ∨ first = '\\' ∧ ∃ ending rest, cs = ending ++ rest ∧ Continues ending rest
        ∧ more = ending.length := by
  revert h
  refine front_elim (motive := fun f => f v = .skipped more →
    (isMargin first = true ∧ more = 0) ∨ (first = '\n' ∧ 0 < depth ∧ more = 0)
      ∨ (first = '#' ∧ more = countWhile (· != '\n') cs)
      ∨ first = '\\' ∧ ∃ ending rest, cs = ending ++ rest ∧ Continues ending rest
        ∧ more = ending.length) ?margin ?newline ?lineFeed ?comment ?continuation ?number ?string
    ?word ?operator
  case margin =>
    rintro hmargin ⟨⟩
    exact .inl ⟨hmargin, rfl⟩
  case newline => nofun
  case lineFeed =>
    rintro hfirst hdepth ⟨⟩
    exact .inr (.inl ⟨hfirst, hdepth, rfl⟩)
  case comment =>
    rintro hfirst ⟨⟩
    exact .inr (.inr (.inl ⟨hfirst, rfl⟩))
  case continuation =>
    rintro ending rest hfirst hcs hends ⟨⟩
    exact .inr (.inr (.inr ⟨hfirst, ending, rest, hcs, hends, rfl⟩))
  case number =>
    intro h
    obtain ⟨_, _, hfront⟩ := exists_numberFront v first cs
    cases hfront.symm.trans h
  case string => nofun
  case word =>
    intro _ h
    rcases wordFront_cases v first cs with ⟨letters, quote, marks, after, rfl, hletters, hmarks⟩
      | ⟨letters, rest, rfl, hletters, hends, hnone⟩
    · cases (wordFront_literal hletters hmarks after).symm.trans h
    · cases (wordFront_name hletters hends hnone).symm.trans h
  case operator =>
    intro h
    rcases operatorFront_cases v first cs with ⟨entry, -, -, hfront⟩ | hfront
    · cases hfront.symm.trans h
    · cases hfront.symm.trans h

end Lexer

end PyAtlas
