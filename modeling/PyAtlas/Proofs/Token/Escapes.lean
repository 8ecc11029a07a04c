import PyAtlas.Proofs.Token.Literals
import PyAtlas.Proofs.Token.Words

/-!
# Writing string literals

Any text can be written as a literal with escapes: in either quotes, one or three of them, and behind
any letters that leave escapes alone. The backslash and the quote get a backslash in front, and in
single quotes a line feed is written as the letter `n` behind a backslash, because a line feed behind
a backslash counts for nothing.

Such a literal is read as one token wherever it is set apart, and its value is the text that was
written: no quote of the text ends it, and no backslash of the text begins an escape.

## Key definitions
- `StringLiteral.escaped`: a text as the body of a literal.
- `WrittenString`: a literal that is written with escapes.

## Key results
- `StringLiteral.unescape_escaped`: the value of an escaped text is the text.
- `WrittenString.quoted_afterQuote`: the lexer finds the closing quotes.
- `WrittenString.separate`, `WrittenString.decode?_text`: the literal is one word with the value that
  was written.
-/

namespace PyAtlas

theorem Lexer.eq_or_eq_of_isQuote {quote : Char} (h : isQuote quote = true) :
    quote = '\x22' ∨ quote = '\x27' := by
  simpa [isQuote] using h

namespace StringLiteral

variable {quote c : Char} {triple : Bool} {cs rest : List Char}

/-! ### Escapes -/

/-- A character in the body of a literal. -/
def escapedChar (quote : Char) (triple : Bool) (c : Char) : List Char :=
  if c = '\\' ∨ c = quote then ['\\', c]
  else if c = '\n' ∧ triple = false then ['\\', 'n']
  else [c]

/-- A text as the body of a literal. -/
def escaped (quote : Char) (triple : Bool) (cs : List Char) : List Char :=
  cs.flatMap (escapedChar quote triple)

/-- A character is written as an escape that stands for it, or as it is if it has no meaning of its
    own in the literal. -/
theorem escapedChar_cases (hquote : isQuote quote = true) (triple : Bool) (c : Char) :
    (∃ letter, escapedChar quote triple c = ['\\', letter]
        ∧ ∀ cs, unescape ('\\' :: letter :: cs) = c :: unescape cs)
      ∨ escapedChar quote triple c = [c] ∧ c ≠ '\\' ∧ c ≠ quote
        ∧ (triple = false → c ≠ '\n') := by
  unfold escapedChar
  split
  · rename_i hspecial
    refine .inl ⟨c, rfl, fun cs => ?_⟩
    rcases hspecial with rfl | rfl
    · rfl
    · rcases Lexer.eq_or_eq_of_isQuote hquote with rfl | rfl <;> rfl
  · rename_i hplain
    obtain ⟨hbackslash, hne⟩ := not_or.1 hplain
    split
    · rename_i hline
      obtain ⟨rfl, -⟩ := hline
      exact .inl ⟨'n', rfl, fun _ => rfl⟩
    · rename_i hline
      exact .inr ⟨rfl, hbackslash, hne, fun htriple hnewline => hline ⟨hnewline, htriple⟩⟩

/-- What is no backslash stands for itself. -/
theorem unescape_plain (hc : c ≠ '\\') (cs : List Char) :
    unescape (c :: cs) = c :: unescape cs := by
  -- The first test of `unescape` decides, so the tests behind it need not be opened.
  delta unescape unescape._f unescape.match_1
  exact congrFun (dif_neg hc) _

/-- The value of an escaped text is the text. -/
theorem unescape_escaped (hquote : isQuote quote = true) (triple : Bool) (cs : List Char) :
    unescape (escaped quote triple cs) = cs := by
  induction cs with
  | nil => rfl
  | cons c cs ih =>
    rw [escaped, List.flatMap_cons, ← escaped]
    rcases escapedChar_cases hquote triple c with ⟨letter, heq, hescape⟩ | ⟨heq, hc, -⟩
    · rw [heq, List.cons_append, List.singleton_append, hescape, ih]
    · rw [heq, List.singleton_append, unescape_plain hc, ih]

/-- An escaped text does not begin with the quote. -/
theorem ne_quote_of_escaped (hquote : isQuote quote = true)
    (h : escaped quote triple cs = c :: rest) : c ≠ quote := by
  cases cs with
  | nil => cases h
  | cons first cs =>
    rw [escaped, List.flatMap_cons] at h
    rcases escapedChar_cases hquote triple first with ⟨letter, heq, -⟩ | ⟨heq, -, hne, -⟩
    · rw [heq] at h
      obtain rfl : '\\' = c := (List.cons.inj h).1
      rintro rfl
      cases hquote
    · rw [heq] at h
      obtain rfl : first = c := (List.cons.inj h).1
      exact hne

end StringLiteral

/-! ### The end of a literal -/

namespace Lexer

open StringLiteral (escaped escapedChar escapedChar_cases)

variable {quote : Char}

theorem lineBody_backslash (quote c : Char) (cs : List Char) :
    lineBody quote ('\\' :: c :: cs) = (lineBody quote cs).after 2 := by
  rw [lineBody]

theorem blockBody_backslash (quote c : Char) (cs : List Char) :
    blockBody quote ('\\' :: c :: cs) = (blockBody quote cs).after 2 := by
  rw [blockBody]

/-- Nothing in an escaped text ends a literal in single quotes. -/
theorem lineBody_escaped (hquote : isQuote quote = true) (cs rest : List Char) :
    lineBody quote (escaped quote false cs ++ quote :: rest)
      = ⟨true, (escaped quote false cs).length + 1⟩ := by
  induction cs with
  | nil =>
    show lineBody quote (quote :: rest) = _
    rw [lineBody_cons quote (ne_backslash_of_isQuote hquote),
      if_neg (by simpa using ne_newline_of_isQuote hquote), if_pos (beq_self_eq_true quote)]
    rfl
  | cons c cs ih =>
    rw [escaped, List.flatMap_cons, ← escaped, List.append_assoc]
    rcases escapedChar_cases hquote false c with ⟨letter, heq, -⟩ | ⟨heq, hc, hne, hnewline⟩
    · rw [heq, List.cons_append, List.singleton_append, lineBody_backslash, ih, StringBody.after]
      simp only [List.length_append, List.length_cons, List.length_nil, StringBody.mk.injEq, true_and]
      omega
    · rw [heq, List.singleton_append, lineBody_cons quote hc, if_neg (by simpa using hnewline rfl),
        if_neg (by simpa using hne), ih, StringBody.after]
      simp only [List.length_append, List.length_cons, List.length_nil, StringBody.mk.injEq, true_and]
      omega

/-- Nothing in an escaped text ends a literal in triple quotes. -/
theorem blockBody_escaped (hquote : isQuote quote = true) (cs rest : List Char) :
    blockBody quote (escaped quote true cs ++ quote :: quote :: quote :: rest)
      = ⟨true, (escaped quote true cs).length + 3⟩ := by
  induction cs with
  | nil =>
    show blockBody quote (quote :: quote :: quote :: rest) = _
    rw [blockBody_cons quote (ne_backslash_of_isQuote hquote)]
    simp [startsWithTwo, escaped]
  | cons c cs ih =>
    rw [escaped, List.flatMap_cons, ← escaped, List.append_assoc]
    rcases escapedChar_cases hquote true c with ⟨letter, heq, -⟩ | ⟨heq, hc, hne, -⟩
    · rw [heq, List.cons_append, List.singleton_append, blockBody_backslash, ih, StringBody.after]
      simp only [List.length_append, List.length_cons, List.length_nil, StringBody.mk.injEq, true_and]
      omega
    · rw [heq, List.singleton_append, blockBody_cons quote hc, beq_false_of_ne hne, Bool.false_and,
        if_neg Bool.false_ne_true, ih, StringBody.after]
      simp only [List.length_append, List.length_cons, List.length_nil, StringBody.mk.injEq, true_and]
      omega

end Lexer

/-! ### Written literals -/

/-- A literal that is written with escapes: letters that mark it, quotes, and the text that it stands
    for. -/
structure WrittenString where
  letters : List Char
  marks : StringMarks
  quote : Char
  triple : Bool
  value : String
  marked : StringMarks.ofChars? letters = some marks
  /-- In a raw literal there are no escapes. -/
  notRaw : marks.raw = false
  quotes : Lexer.isQuote quote = true

namespace WrittenString

open Lexer StringLiteral

variable {v : Version} {rest : List Char}

/-- The quotes before and behind the body. -/
def delimiter (w : WrittenString) : List Char :=
  if w.triple then [w.quote, w.quote, w.quote] else [w.quote]

def body (w : WrittenString) : List Char :=
  escaped w.quote w.triple w.value.toList

/-- What stands behind the first quote. -/
def afterQuote (w : WrittenString) : List Char :=
  w.delimiter.tail ++ w.body ++ w.delimiter

/-- The literal as it is written. -/
def text (w : WrittenString) : String :=
  String.ofList (w.letters ++ w.quote :: w.afterQuote)

def word (w : WrittenString) : Word := ⟨.string w.marks, w.text⟩

/-- Whether a version has literals with such marks. -/
def ExistsIn (w : WrittenString) (v : Version) : Prop :=
  v.is3x = true ∨ w.marks.formatted = false

theorem quoted_eq (w : WrittenString) :
    w.quote :: w.afterQuote = w.delimiter ++ w.body ++ w.delimiter := by
  rw [afterQuote, delimiter]
  split <;> rfl

/-- Two more quotes stand behind the first one only if the literal is in triple quotes. -/
theorem startsWithTwo_afterQuote (w : WrittenString) (hrest : Apart rest) :
    startsWithTwo w.quote (w.afterQuote ++ rest) = w.triple := by
  rw [afterQuote, delimiter, body]
  cases w.triple with
  | true => simp [startsWithTwo]
  | false =>
    rw [Bool.eq_false_iff]
    intro htwo
    obtain ⟨more, hmore⟩ := startsWithTwo_iff.1 htwo
    simp only [Bool.false_eq_true, if_false, List.tail_cons, List.nil_append, List.append_assoc,
      List.singleton_append] at hmore
    cases hescaped : escaped w.quote false w.value.toList with
    | nil =>
      -- The quote that ends an empty literal is followed by what keeps apart.
      rw [hescaped, List.nil_append] at hmore
      have hhead : rest.head? = some w.quote := by rw [(List.cons.inj hmore).2]; rfl
      have hquotes := w.quotes
      rcases hrest w.quote hhead with heq | heq <;> rw [heq] at hquotes <;> cases hquotes
    | cons c cs =>
      rw [hescaped, List.cons_append] at hmore
      exact ne_quote_of_escaped w.quotes hescaped (List.cons.inj hmore).1

/-- The lexer finds the closing quotes. -/
theorem quoted_afterQuote (w : WrittenString) (hrest : Apart rest) :
    quoted w.quote (w.afterQuote ++ rest) = ⟨true, w.afterQuote.length⟩ := by
  rw [quoted, w.startsWithTwo_afterQuote hrest, afterQuote, delimiter, body]
  cases w.triple with
  | true =>
    have hblock := blockBody_escaped w.quotes w.value.toList rest
    simp only [if_true, List.tail_cons, List.cons_append, List.nil_append, List.append_assoc,
      List.drop_succ_cons, List.drop_zero, hblock, StringBody.after, List.length_cons,
      List.length_append, List.length_nil, StringBody.mk.injEq, true_and]
    omega
  | false =>
    have hline := lineBody_escaped w.quotes w.value.toList rest
    simp only [Bool.false_eq_true, if_false, List.tail_cons, List.nil_append, List.append_assoc,
      List.singleton_append, hline, List.length_append, List.length_cons, List.length_nil]

/-! ### Marks -/

theorem isIdentStart_of_isUpper {c : Char} (h : c.isUpper = true) :
    Text.isIdentStart c = true := by
  have hascii : c.toNat < 0x80 := by
    have hle : c.val ≤ 'Z'.val := (of_decide_eq_true h).2
    exact Nat.lt_of_le_of_lt (UInt32.le_iff_toNat_le.1 hle) (by decide)
  have halpha : c.isAlpha = true := Bool.or_eq_true_iff.2 (.inl h)
  rw [Text.isIdentStart, Text.isLetter, if_pos hascii, halpha, Bool.true_or]

/-- A letter that is a mark begins a word. -/
theorem isIdentStart_of_add? {marks marks' : StringMarks} {c : Char}
    (h : marks.add? c = some marks') : Text.isIdentStart c = true := by
  by_cases hupper : c.isUpper = true
  · exact isIdentStart_of_isUpper hupper
  · have hlower : c.toLower = c := dif_neg fun hbounds =>
      hupper (decide_eq_true hbounds)
    rw [StringMarks.add?, hlower] at h
    split at h
    · decide
    · decide
    · decide
    · decide
    · cases h

theorem isIdentStart_of_foldlM {marks marks' : StringMarks} {letters : List Char}
    (h : letters.foldlM StringMarks.add? marks = some marks') :
    ∀ c ∈ letters, Text.isIdentStart c = true := by
  induction letters generalizing marks with
  | nil => exact nofun
  | cons c letters ih =>
    obtain ⟨added, hadd, hrest⟩ := Option.bind_eq_some_iff.1 (List.foldlM_cons.symm.trans h)
    exact List.forall_mem_cons.2 ⟨isIdentStart_of_add? hadd, ih hrest⟩

theorem isIdentStart_of_mem (w : WrittenString) : ∀ c ∈ w.letters, Text.isIdentStart c = true := by
  have hmarked := w.marked
  rw [StringMarks.ofChars?] at hmarked
  split at hmarked
  · exact isIdentStart_of_foldlM (Option.filter_eq_some_iff.1 hmarked).1
  · cases hmarked

/-! ### Written literals as words -/

theorem stringFront_written (w : WrittenString) (before : Nat) (hrest : Apart rest) :
    stringFront w.marks w.quote before (w.afterQuote ++ rest)
      = .token (.string w.marks) (before + w.afterQuote.length) := by
  rw [stringFront, w.quoted_afterQuote hrest]
  rfl

/-- A literal without marks begins with its quote. -/
theorem front_quote (w : WrittenString) (hletters : w.letters = []) (depth : Nat)
    (hrest : Apart rest) : front v depth w.quote (w.afterQuote ++ rest)
      = .token (.string w.marks) w.afterQuote.length := by
  have hstarts : startsWord w.quote = true ∧ w.quote.isDigit = false ∧ (w.quote == '.') = false := by
    rcases eq_or_eq_of_isQuote w.quotes with heq | heq <;> rw [heq] <;> decide
  have hmarks : StringMarks.plain = w.marks := by
    have hmarked := w.marked
    rw [hletters] at hmarked
    exact Option.some.inj hmarked
  obtain ⟨hword, hdigit, hpoint⟩ := hstarts
  have hfront := w.stringFront_written 0 hrest
  rw [Nat.zero_add] at hfront
  rw [front_of_startsWord hword, hdigit, hpoint, w.quotes, hmarks]
  simpa using hfront

/-- Letters that the version knows as marks belong to the literal behind them. -/
theorem front_letters (w : WrittenString) (hv : w.ExistsIn v) {first : Char} {letters : List Char}
    (hletters : w.letters = first :: letters) (depth : Nat) (hrest : Apart rest) :
    front v depth first (letters ++ w.quote :: (w.afterQuote ++ rest))
      = .token (.string w.marks) (letters.length + 1 + w.afterQuote.length) := by
  have hstart := w.isIdentStart_of_mem
  rw [hletters] at hstart
  obtain ⟨hfirst, hmore⟩ := List.forall_mem_cons.1 hstart
  obtain ⟨hstarts, hdigit, hpoint, hquote⟩ := startsWord_of_isIdentStart hfirst
  have hmarked := w.marked
  rw [hletters] at hmarked
  have hexists : (v.is3x || !w.marks.formatted) = true := by
    rcases hv with hv | hv <;> simp [hv]
  have hliteral := wordFront_literal
    (fun c hc => Text.isIdentPart_of_isIdentStart (hmore c hc)) ⟨w.quotes, hmarked, hexists⟩
    (w.afterQuote ++ rest)
  rw [front_of_startsWord hstarts, hdigit, beq_false_of_ne hpoint, hquote, hfirst]
  exact hliteral.trans (w.stringFront_written _ hrest)

/-- A written literal is read as one token. -/
theorem separate (w : WrittenString) (hv : w.ExistsIn v) : Separate v w.word := by
  refine ⟨?_, rfl⟩
  have htext : w.word.text.toList = w.letters ++ w.quote :: w.afterQuote := String.toList_ofList
  rw [htext]
  cases hletters : w.letters with
  | nil =>
    have hstarts : startsWord w.quote = true := by
      rcases eq_or_eq_of_isQuote w.quotes with heq | heq <;> rw [heq] <;> rfl
    exact ⟨w.quote, w.afterQuote, rfl, hstarts,
      fun depth rest hrest => w.front_quote hletters depth hrest⟩
  | cons first letters =>
    have hfirst := w.isIdentStart_of_mem first (by rw [hletters]; exact List.mem_cons_self)
    refine ⟨first, letters ++ w.quote :: w.afterQuote, rfl, (startsWord_of_isIdentStart hfirst).1,
      fun depth rest hrest => ?_⟩
    rw [List.append_assoc, List.cons_append, w.front_letters hv hletters depth hrest,
      List.length_append, List.length_cons]
    congr 1
    omega

/-- The value of a written literal is the text that it was written for. -/
theorem decode?_text (w : WrittenString) : decode? w.text = some ⟨w.marks, w.value⟩ := by
  have hend : Apart [] := nofun
  have hdelimiter : Lexer.delimiter w.quote w.afterQuote = w.delimiter := by
    have htwo := w.startsWithTwo_afterQuote hend
    rw [List.append_nil] at htwo
    rw [Lexer.delimiter, htwo, delimiter]
  have hwritten : w.quote :: w.afterQuote.take w.afterQuote.length
      = Lexer.delimiter w.quote w.afterQuote ++ w.body ++ Lexer.delimiter w.quote w.afterQuote := by
    rw [List.take_length, hdelimiter, w.quoted_eq]
  have hfound := delimiterOf_written hwritten
  rw [List.take_length] at hwritten hfound
  have hletters : ∀ c ∈ w.letters, StringLiteral.isQuote c = false := fun c hc =>
    isQuote_of_isIdentPart (Text.isIdentPart_of_isIdentStart (w.isIdentStart_of_mem c hc))
  have hvalue : valueOf w.marks w.body = w.value.toList := by
    rw [valueOf, w.notRaw, if_neg Bool.false_ne_true, body, unescape_escaped w.quotes]
  rw [decode?, text, String.toList_ofList,
    decodeChars?_written hletters w.quotes w.marked hwritten hfound, hvalue]
  simp

end WrittenString

end PyAtlas
