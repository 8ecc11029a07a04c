import Mathlib.Data.List.Find
import PyAtlas.Proofs.Token.HeldLines
import PyAtlas.Proofs.Token.Literals

/-!
# Carriage returns in front of line feeds

A text may end its lines with a carriage return and a line feed. No word but a literal goes on over
either of the two, so all other words are the same in such a text. A literal in triple quotes takes
both as it takes a line feed. A literal in single quotes ends unclosed in front of a line feed; but
a backslash takes the character that follows with it, and that is the whole of a line end or only
its carriage return. So a literal in single quotes that goes on behind a line end is cut there.

What ends in front of a line feed has read the carriage return before it, or there is none to read:
`SameRest` relates the texts that are left in both cases.

## Key definitions
- `Text.withReturns`: a text with a carriage return in front of every line feed.
- `Lexer.crossesLine`: a literal in single quotes that goes on behind a line feed.
- `Lexer.Rereading`: what stands at the front of a text without carriage returns and with them.

## Key results
- `Lexer.countWhile_withReturns`: counts of characters that end no line are the same.
- `Lexer.lineBody_withReturns`, `Lexer.blockBody_withReturns`: the bodies of literals.
- `Lexer.front_withReturns`: what stands at the front of a text inside a line.
-/

namespace PyAtlas

namespace Text

/-- The text with a carriage return in front of every line feed. -/
def withReturns (cs : List Char) : List Char :=
  cs.flatMap fun c => if c == '\n' then ['\r', '\n'] else [c]

@[simp] theorem withReturns_nil : withReturns [] = [] := rfl

@[simp] theorem withReturns_feed (cs : List Char) :
    withReturns ('\n' :: cs) = '\r' :: '\n' :: withReturns cs := rfl

theorem withReturns_cons {c : Char} (hc : c ≠ '\n') (cs : List Char) :
    withReturns (c :: cs) = c :: withReturns cs := by
  simp [withReturns, hc]

theorem withReturns_line {line : List Char} (h : ∀ c ∈ line, c ≠ '\n') (cs : List Char) :
    withReturns (line ++ cs) = line ++ withReturns cs := by
  induction line with
  | nil => rfl
  | cons c line ih =>
    obtain ⟨hc, h⟩ := List.forall_mem_cons.1 h
    rw [List.cons_append, withReturns_cons hc, ih h, List.cons_append]

/-- The first characters of a text stand in its first line. -/
def InFirstLine (n : Nat) (cs : List Char) : Prop := '\n' ∉ cs.take n

section InFirstLine

variable {m n : Nat} {c : Char} {cs : List Char}

theorem inFirstLine_zero (cs : List Char) : InFirstLine 0 cs := nofun

theorem inFirstLine_succ : InFirstLine (n + 1) (c :: cs) ↔ c ≠ '\n' ∧ InFirstLine n cs := by
  rw [InFirstLine, List.take_succ_cons, List.mem_cons, not_or, InFirstLine, eq_comm]

theorem InFirstLine.add (h : InFirstLine m cs) (h' : InFirstLine n (cs.drop m)) :
    InFirstLine (m + n) cs := by
  rw [InFirstLine, List.take_add, List.mem_append, not_or]
  exact ⟨h, h'⟩

/-- Reading on in the first line is the same with carriage returns. -/
theorem InFirstLine.withReturns (h : InFirstLine n cs) :
    (withReturns cs).take n = cs.take n ∧ (withReturns cs).drop n = withReturns (cs.drop n) := by
  induction n generalizing cs with
  | zero => exact ⟨rfl, rfl⟩
  | succ n ih =>
    cases cs with
    | nil => exact ⟨rfl, rfl⟩
    | cons c cs =>
      obtain ⟨hc, h⟩ := inFirstLine_succ.1 h
      rw [withReturns_cons hc, List.take_succ_cons, List.take_succ_cons, (ih h).1,
        List.drop_succ_cons, List.drop_succ_cons, (ih h).2]
      exact ⟨rfl, rfl⟩

end InFirstLine

end Text

namespace Lexer

open Text

variable {v : Version} {cs : List Char}

/-! ### Counts -/

section Counts

variable {p : Char → Bool} (hfeed : p '\n' = false)

include hfeed

theorem inFirstLine_countWhile (cs : List Char) : InFirstLine (countWhile p cs) cs := by
  intro hmem
  rw [of_mem_take_countWhile hmem] at hfeed
  cases hfeed

theorem inFirstLine_countOne (cs : List Char) : InFirstLine (countOne p cs) cs := by
  cases cs with
  | nil => exact inFirstLine_zero _
  | cons c cs =>
    rw [countOne]
    split
    · rename_i hc
      refine inFirstLine_succ.2 ⟨?_, inFirstLine_zero _⟩
      rintro rfl
      rw [hfeed] at hc
      cases hc
    · exact inFirstLine_zero _

variable (hreturn : p '\r' = false)

include hreturn

theorem countWhile_withReturns (cs : List Char) :
    countWhile p (withReturns cs) = countWhile p cs := by
  simp only [countWhile]
  induction cs with
  | nil => rfl
  | cons c cs ih =>
    by_cases hc : c = '\n'
    · subst hc
      rw [withReturns_feed, List.takeWhile_cons_of_neg (by simp [hreturn]),
        List.takeWhile_cons_of_neg (by simp [hfeed])]
    · rw [withReturns_cons hc, List.takeWhile_cons, List.takeWhile_cons]
      split
      · rw [List.length_cons, List.length_cons, ih]
      · rfl

theorem countOne_withReturns (cs : List Char) : countOne p (withReturns cs) = countOne p cs := by
  cases cs with
  | nil => rfl
  | cons c cs =>
    by_cases hc : c = '\n'
    · subst hc
      rw [withReturns_feed, countOne, countOne, hfeed, hreturn]
    · rw [withReturns_cons hc, countOne, countOne]

end Counts

/-! ### Numbers -/

theorem isDigitOrBreak_lineEnd : isDigitOrBreak '\n' = false ∧ isDigitOrBreak '\r' = false := by
  decide

theorem countWhile_digits_withReturns (cs : List Char) :
    countWhile isDigitOrBreak (withReturns cs) = countWhile isDigitOrBreak cs :=
  countWhile_withReturns isDigitOrBreak_lineEnd.1 isDigitOrBreak_lineEnd.2 cs

private theorem exponentLength_withReturns (cs : List Char) :
    exponentLength (withReturns cs) = exponentLength cs ∧ InFirstLine (exponentLength cs) cs := by
  match cs with
  | [] => exact ⟨rfl, inFirstLine_zero _⟩
  | [e] =>
    refine ⟨?_, inFirstLine_zero _⟩
    by_cases he : e = '\n'
    · rw [he]
      rfl
    · rw [withReturns_cons he]
      rfl
  | e :: d :: cs =>
    by_cases he : e = '\n'
    · rw [he]
      exact ⟨rfl, inFirstLine_zero _⟩
    rw [withReturns_cons he]
    by_cases hd : d = '\n'
    · rw [hd]
      have hnone : exponentLength (e :: '\n' :: cs) = 0 := by
        simp [exponentLength, Char.isDigit]
      rw [hnone]
      refine ⟨?_, inFirstLine_zero _⟩
      simp [exponentLength, Char.isDigit]
    rw [withReturns_cons hd]
    have hline : InFirstLine (2 + countWhile isDigitOrBreak cs) (e :: d :: cs) := by
      rw [Nat.add_comm]
      refine inFirstLine_succ.2 ⟨he, inFirstLine_succ.2 ⟨hd, ?_⟩⟩
      exact inFirstLine_countWhile isDigitOrBreak_lineEnd.1 cs
    simp only [exponentLength, countWhile_digits_withReturns,
      countOne_withReturns (p := Char.isDigit) (by decide) (by decide)]
    refine ⟨trivial, ?_⟩
    split
    · split
      · exact hline
      · split
        · exact hline
        · exact inFirstLine_zero _
    · exact inFirstLine_zero _

private theorem mantissa_withReturns (first : Char) (cs : List Char) :
    mantissa first (withReturns cs) = mantissa first cs
      ∧ InFirstLine (mantissa first cs).2 cs := by
  have hline : InFirstLine (countWhile isDigitOrBreak cs) cs :=
    inFirstLine_countWhile isDigitOrBreak_lineEnd.1 cs
  simp only [mantissa, countWhile_digits_withReturns, hline.withReturns.2]
  split
  · exact ⟨rfl, hline⟩
  · generalize hrest : cs.drop (countWhile isDigitOrBreak cs) = rest
    cases rest with
    | nil => exact ⟨rfl, hline⟩
    | cons c rest =>
      by_cases hpoint : c = '.'
      · -- The digits behind the point stand in the same line.
        subst hpoint
        rw [withReturns_cons (by decide)]
        simp only [countWhile_digits_withReturns]
        refine ⟨trivial, ?_⟩
        rw [Nat.add_assoc]
        refine hline.add ?_
        rw [hrest, Nat.add_comm]
        exact inFirstLine_succ.2 ⟨by decide, inFirstLine_countWhile isDigitOrBreak_lineEnd.1 rest⟩
      · by_cases hc : c = '\n'
        · subst hc
          exact ⟨rfl, hline⟩
        · rw [withReturns_cons hc]
          simp [hpoint, hline]

/-- Numbers end before the line does. -/
private theorem decimalFront_withReturns (v : Version) (first : Char) (cs : List Char) :
    decimalFront v first (withReturns cs) = decimalFront v first cs
      ∧ InFirstLine (decimalFront v first cs).more cs := by
  obtain ⟨hmantissa, hdigits⟩ := mantissa_withReturns first cs
  obtain ⟨hexponent, hpower⟩ := exponentLength_withReturns (cs.drop (mantissa first cs).2)
  have hline := hdigits.add hpower
  have himaginary : ∀ ds, countOne isImaginaryMark (withReturns ds) = countOne isImaginaryMark ds :=
    countOne_withReturns (by decide) (by decide)
  have hlong : ∀ ds, countOne isLongMark (withReturns ds) = countOne isLongMark ds :=
    countOne_withReturns (by decide) (by decide)
  simp only [decimalFront, hmantissa, hdigits.withReturns.2, hexponent, hline.withReturns.2,
    himaginary, hlong]
  refine ⟨trivial, ?_⟩
  generalize (if exponentLength (cs.drop (mantissa first cs).2) == 0 then (mantissa first cs).1
    else NumberKind.float) = kind
  split
  · rename_i hone
    refine hline.add ?_
    rw [← beq_iff_eq.1 hone]
    exact inFirstLine_countOne (by decide) _
  · split
    · exact hline.add (inFirstLine_countOne (by decide) _)
    · exact hline

private theorem radixFront_withReturns {mark : Char} (hmark : isRadixMark mark = true)
    (cs : List Char) :
    radixFront (withReturns (mark :: cs)) = radixFront (mark :: cs)
      ∧ InFirstLine (radixFront (mark :: cs)).more (mark :: cs) := by
  have hmark : mark ≠ '\n' := by
    rintro rfl
    cases hmark
  have hdigits : InFirstLine (1 + countWhile (fun c => Text.isHexDigit c || c == '_') cs)
      (mark :: cs) := by
    rw [Nat.add_comm]
    exact inFirstLine_succ.2 ⟨hmark, inFirstLine_countWhile (by decide) cs⟩
  have hlong := countOne_withReturns (p := isLongMark) (by decide) (by decide)
    ((mark :: cs).drop (1 + countWhile (fun c => Text.isHexDigit c || c == '_') cs))
  have hcount := countWhile_withReturns (p := fun c => Text.isHexDigit c || c == '_') (by decide)
    (by decide) cs
  have hrest := hdigits.withReturns.2
  rw [withReturns_cons hmark] at hrest ⊢
  simp only [radixFront, List.drop_succ_cons, List.drop_zero, hcount, hrest, hlong]
  exact ⟨trivial, hdigits.add (inFirstLine_countOne (by decide) _)⟩

private theorem numberFront_withReturns (v : Version) (first : Char) (cs : List Char) :
    numberFront v first (withReturns cs) = numberFront v first cs
      ∧ InFirstLine (numberFront v first cs).more cs := by
  have hmark := countOne_withReturns (p := isRadixMark) (by decide) (by decide) cs
  simp only [numberFront, hmark]
  split
  · rename_i hradix
    obtain ⟨-, hone⟩ := Bool.and_eq_true_iff.1 hradix
    cases cs with
    | nil => cases hone
    | cons mark cs =>
      refine radixFront_withReturns ?_ cs
      cases hmark : isRadixMark mark with
      | true => rfl
      | false =>
        rw [countOne, hmark] at hone
        cases hone
  · exact decimalFront_withReturns v first cs

/-! ### Names and operators -/

/-- The spelling of an operator ends before the line does. -/
theorem isPrefixOf_withReturns {spelling : List Char} (hfeed : '\n' ∉ spelling)
    (hreturn : '\r' ∉ spelling) (cs : List Char) :
    spelling.isPrefixOf (withReturns cs) = spelling.isPrefixOf cs := by
  induction spelling generalizing cs with
  | nil => simp
  | cons s spelling ih =>
    rw [List.mem_cons, not_or] at hfeed hreturn
    cases cs with
    | nil => rfl
    | cons c cs =>
      by_cases hc : c = '\n'
      · subst hc
        have hs : (s == '\r') = false ∧ (s == '\n') = false := by
          simp [Ne.symm hfeed.1, Ne.symm hreturn.1]
        rw [withReturns_feed, List.isPrefixOf_cons_cons, List.isPrefixOf_cons_cons, hs.1, hs.2]
        rfl
      · rw [withReturns_cons hc, List.isPrefixOf_cons_cons, List.isPrefixOf_cons_cons,
          ih hfeed.2 hreturn.2]

theorem operators_no_lineEnd : ∀ entry ∈ operators, '\n' ∉ entry.1 ∧ '\r' ∉ entry.1 := by
  decide

private theorem operatorFront_withReturns (v : Version) {first : Char} (hfirst : first ≠ '\n')
    (cs : List Char) :
    operatorFront v first (withReturns cs) = operatorFront v first cs
      ∧ InFirstLine (operatorFront v first cs).more cs := by
  have hsame : operators.find? (fun entry =>
      entry.1.isPrefixOf (first :: withReturns cs) && operatorExists v entry)
        = operators.find? fun entry =>
          entry.1.isPrefixOf (first :: cs) && operatorExists v entry := by
    refine List.find?_congr fun entry hentry => ?_
    obtain ⟨hfeed, hreturn⟩ := operators_no_lineEnd entry hentry
    rw [← withReturns_cons hfirst, isPrefixOf_withReturns hfeed hreturn]
  rw [operatorFront, operatorFront, hsame]
  refine ⟨rfl, ?_⟩
  cases hfind : operators.find? fun entry =>
      entry.1.isPrefixOf (first :: cs) && operatorExists v entry with
  | none => exact inFirstLine_zero _
  | some entry =>
    have hfeed := (operators_no_lineEnd entry (List.mem_of_find?_eq_some hfind)).1
    have hprefix := List.find?_some hfind
    rw [Bool.and_eq_true, List.isPrefixOf_iff_prefix] at hprefix
    -- All but the first character of the spelling is read.
    have htake : cs.take (entry.1.length - 1) = entry.1.tail := by
      obtain ⟨spelling, kind⟩ := entry
      cases spelling with
      | nil => rfl
      | cons s spelling =>
        exact (List.prefix_iff_eq_take.1 (List.cons_prefix_cons.1 hprefix.1).2).symm
    intro hmem
    rw [Front.more, htake] at hmem
    exact hfeed (List.mem_of_mem_tail hmem)

/-! ### Literals -/

/-- What is left of a text, and what is left of it with carriage returns. Inside a line, that is if
    it is not `fresh`, the carriage return in front of the next line feed may have been read. -/
inductive SameRest : (fresh : Bool) → List Char → List Char → Prop
  | all (fresh : Bool) (cs : List Char) : SameRest fresh cs (withReturns cs)
  | feed (cs : List Char) : SameRest false ('\n' :: cs) ('\n' :: withReturns cs)

section Literals

variable {quote : Char} (hquote : isQuote quote = true)

theorem isQuote_lineEnd : isQuote '\n' = false ∧ isQuote '\r' = false := by
  decide

include hquote

theorem lineEnd_ne_quote : ('\n' == quote) = false ∧ ('\r' == quote) = false := by
  have hne : ∀ c, isQuote c = false → (c == quote) = false := by
    intro c hc
    rw [beq_eq_false_iff_ne]
    rintro rfl
    rw [hc] at hquote
    cases hquote
  exact ⟨hne '\n' isQuote_lineEnd.1, hne '\r' isQuote_lineEnd.2⟩

theorem startsWithTwo_withReturns (cs : List Char) :
    startsWithTwo quote (withReturns cs) = startsWithTwo quote cs := by
  obtain ⟨hfeed, hreturn⟩ := lineEnd_ne_quote hquote
  match cs with
  | [] => rfl
  | [a] =>
    by_cases ha : a = '\n'
    · simp [ha, startsWithTwo, hreturn]
    · rw [withReturns_cons ha]
      rfl
  | a :: b :: cs =>
    by_cases ha : a = '\n'
    · simp [ha, startsWithTwo, hfeed, hreturn]
    by_cases hb : b = '\n'
    · simp [hb, withReturns_cons ha, startsWithTwo, hfeed, hreturn]
    · rw [withReturns_cons ha, withReturns_cons hb]
      rfl

/-- A literal in triple quotes takes a carriage return and a line feed as it takes a line feed. -/
theorem blockBody_withReturns (cs : List Char) :
    (blockBody quote (withReturns cs)).closed = (blockBody quote cs).closed
      ∧ (withReturns cs).drop (blockBody quote (withReturns cs)).length
        = withReturns (cs.drop (blockBody quote cs).length) := by
  obtain ⟨hfeed, hreturn⟩ := lineEnd_ne_quote hquote
  fun_induction blockBody quote cs with
  | case1 => exact ⟨rfl, rfl⟩
  | case2 => exact ⟨rfl, rfl⟩
  | case3 d cs ih =>
    rw [withReturns_cons (by decide)]
    by_cases hd : d = '\n'
    · -- The backslash takes the carriage return, and the line feed is one more character.
      subst hd
      rw [withReturns_feed, blockBody, blockBody_cons quote (by decide)]
      simpa [StringBody.after, hfeed, ← List.drop_drop] using ih
    · rw [withReturns_cons hd, blockBody]
      simpa [StringBody.after, ← List.drop_drop] using ih
  | case4 c cs hnil hcons hquotes =>
    obtain ⟨hc, htwo⟩ := Bool.and_eq_true_iff.1 hquotes
    obtain ⟨rest, rfl⟩ := startsWithTwo_iff.1 htwo
    obtain rfl := beq_iff_eq.1 hc
    have hne : c ≠ '\n' := fun h => by simp [h] at hfeed
    rw [withReturns_cons hne, withReturns_cons hne, withReturns_cons hne,
      blockBody_cons c (ne_backslash hnil hcons)]
    simp [startsWithTwo]
  | case5 c cs hnil hcons hquotes ih =>
    by_cases hc : c = '\n'
    · subst hc
      rw [withReturns_feed, blockBody_cons quote (by decide), blockBody_cons quote (by decide)]
      simpa [StringBody.after, hfeed, hreturn, ← List.drop_drop] using ih
    · rw [withReturns_cons hc, blockBody_cons quote (ne_backslash hnil hcons),
        startsWithTwo_withReturns hquote, if_neg hquotes]
      simpa [StringBody.after, ← List.drop_drop] using ih

/-- A literal in single quotes that ends in its first line ends at the same place, or in front of
    the line feed behind a carriage return. -/
theorem lineBody_withReturns {cs : List Char} (h : InFirstLine (lineBody quote cs).length cs) :
    (lineBody quote (withReturns cs)).closed = (lineBody quote cs).closed
      ∧ SameRest false (cs.drop (lineBody quote cs).length)
        ((withReturns cs).drop (lineBody quote (withReturns cs)).length) := by
  obtain ⟨hfeed, hreturn⟩ := lineEnd_ne_quote hquote
  fun_induction lineBody quote cs with
  | case1 => exact ⟨rfl, .all _ []⟩
  | case2 => exact ⟨rfl, .all _ []⟩
  | case3 d cs ih =>
    rw [StringBody.after, Nat.add_comm, inFirstLine_succ, inFirstLine_succ] at h
    rw [withReturns_cons h.1, withReturns_cons h.2.1, lineBody]
    simpa [StringBody.after, ← List.drop_drop] using ih h.2.2
  | case4 c cs hnil hcons hc =>
    -- The carriage return is one more character of the literal that the line feed ends.
    obtain rfl := beq_iff_eq.1 hc
    rw [withReturns_feed, lineBody_cons quote (by decide), lineBody_cons quote (by decide)]
    simp only [hreturn]
    exact ⟨rfl, .feed cs⟩
  | case5 c cs hnil hcons hc hq =>
    have hne : c ≠ '\n' := fun h => hc (beq_iff_eq.2 h)
    rw [withReturns_cons hne, lineBody_cons quote (ne_backslash hnil hcons), if_neg hc, if_pos hq]
    exact ⟨rfl, .all _ cs⟩
  | case6 c cs hnil hcons hc hq ih =>
    rw [StringBody.after, Nat.add_comm, inFirstLine_succ] at h
    rw [withReturns_cons h.1, lineBody_cons quote (ne_backslash hnil hcons), if_neg hc, if_neg hq]
    simpa [StringBody.after, ← List.drop_drop] using ih h.2

/-- A literal in single quotes that goes on behind its first line is cut at the end of that line. -/
theorem closed_lineBody_withReturns {cs : List Char}
    (h : ¬ InFirstLine (lineBody quote cs).length cs) :
    (lineBody quote (withReturns cs)).closed = false := by
  obtain ⟨hfeed, hreturn⟩ := lineEnd_ne_quote hquote
  fun_induction lineBody quote cs with
  | case1 => exact absurd (inFirstLine_zero _) h
  | case2 => exact absurd (inFirstLine_succ.2 ⟨by decide, inFirstLine_zero _⟩) h
  | case3 d cs ih =>
    rw [StringBody.after, Nat.add_comm, inFirstLine_succ, inFirstLine_succ] at h
    rw [withReturns_cons (by decide)]
    by_cases hd : d = '\n'
    · -- The backslash takes the carriage return, and the line feed ends the literal.
      subst hd
      rw [withReturns_feed, lineBody, lineBody_cons quote (by decide)]
      rfl
    · rw [withReturns_cons hd, lineBody]
      exact ih fun hline => h ⟨by decide, hd, hline⟩
  | case4 c cs hnil hcons hc => exact absurd (inFirstLine_zero _) h
  | case5 c cs hnil hcons hc hq =>
    exact absurd (inFirstLine_succ.2 ⟨fun h => hc (beq_iff_eq.2 h), inFirstLine_zero _⟩) h
  | case6 c cs hnil hcons hc hq ih =>
    have hne : c ≠ '\n' := fun h => hc (beq_iff_eq.2 h)
    rw [StringBody.after, Nat.add_comm, inFirstLine_succ] at h
    rw [withReturns_cons hne, lineBody_cons quote (ne_backslash hnil hcons), if_neg hc, if_neg hq]
    exact ih fun hline => h ⟨hne, hline⟩

end Literals

/-- Whether a text begins, behind its marks, with a single quote, and goes on behind a line feed. -/
def crossesLine (text : List Char) : Bool :=
  match text.dropWhile (!isQuote ·) with
  | quote :: body => !startsWithTwo quote body && body.contains '\n'
  | [] => false

theorem crossesLine_of_not_mem {text : List Char} (h : '\n' ∉ text) : crossesLine text = false := by
  rw [crossesLine]
  split
  · rename_i quote body hbody
    have hmem : '\n' ∉ body := fun hmem =>
      h ((List.dropWhile_sublist _).subset (hbody ▸ List.mem_cons_of_mem quote hmem))
    rw [Bool.and_eq_false_iff]
    exact .inr (by simpa using hmem)
  · rfl

theorem crossesLine_letters {letters body : List Char} {quote : Char}
    (hletters : ∀ c ∈ letters, isQuote c = false) (hquote : isQuote quote = true) :
    crossesLine (letters ++ quote :: body) = (!startsWithTwo quote body && body.contains '\n') := by
  have hbody : (letters ++ quote :: body).dropWhile (!isQuote ·) = quote :: body :=
    (StringLiteral.takeWhile_written body hletters hquote).2
  rw [crossesLine, hbody]

/-- What stands at the front of a text, and what stands there with carriage returns: the same, or a
    literal that is cut at the end of its line. -/
inductive Rereading (text text' : List Char) : Front → Front → Prop
  | skipped {more more' : Nat} :
    SameRest false (text.drop (more + 1)) (text'.drop (more' + 1)) →
    Rereading text text' (.skipped more) (.skipped more')
  | token {kind : TokenKind} {more more' : Nat} :
    crossesLine (text.take (more + 1)) = false →
    (kind = .identifier → text'.take (more' + 1) = text.take (more + 1)) →
    SameRest (kind == .newline) (text.drop (more + 1)) (text'.drop (more' + 1)) →
    Rereading text text' (.token kind more) (.token kind more')
  | cut {kind : TokenKind} {more more' : Nat} :
    crossesLine (text.take (more + 1)) = true →
    Rereading text text' (.token kind more) (.token (.error .unterminatedString) more')

/-- What stands in the first line is the same. -/
theorem Rereading.of_inFirstLine {first : Char} (hfirst : first ≠ '\n') {f g : Front}
    (hsame : g = f) (hline : InFirstLine f.more cs) :
    Rereading (first :: cs) (first :: withReturns cs) f g := by
  subst hsame
  have hline : InFirstLine (g.more + 1) (first :: cs) := inFirstLine_succ.2 ⟨hfirst, hline⟩
  obtain ⟨htake, hdrop⟩ := hline.withReturns
  rw [withReturns_cons hfirst] at htake hdrop
  have hrest : ∀ fresh, SameRest fresh ((first :: cs).drop (g.more + 1))
      ((first :: withReturns cs).drop (g.more + 1)) := by
    intro fresh
    rw [hdrop]
    exact .all fresh _
  cases g with
  | skipped more => exact .skipped (hrest _)
  | token kind more => exact .token (crossesLine_of_not_mem hline) (fun _ => htake) (hrest _)

/-- The text of a literal tells whether it is one in triple quotes. -/
theorem startsWithTwo_take (quote : Char) (cs : List Char) :
    startsWithTwo quote (cs.take (quoted quote cs).length) = startsWithTwo quote cs := by
  cases htwo : startsWithTwo quote cs with
  | true =>
    obtain ⟨rest, rfl⟩ := startsWithTwo_iff.1 htwo
    rw [quoted, if_pos htwo, StringBody.after, Nat.add_comm]
    exact startsWithTwo_iff.2 ⟨_, rfl⟩
  | false =>
    rw [Bool.eq_false_iff]
    intro htake
    obtain ⟨rest, hrest⟩ := startsWithTwo_iff.1 htake
    have hcs : startsWithTwo quote cs = true := by
      rw [← List.take_append_drop (quoted quote cs).length cs, hrest]
      exact startsWithTwo_iff.2 ⟨_, rfl⟩
    rw [htwo] at hcs
    cases hcs

/-- All of a literal after its first quote is the same with carriage returns, unless the literal is
    one in single quotes that goes on behind a line feed. -/
theorem quoted_withReturns {quote : Char} (hquote : isQuote quote = true) (cs : List Char) :
    (!startsWithTwo quote cs && (cs.take (quoted quote cs).length).contains '\n') = false
        ∧ (quoted quote (withReturns cs)).closed = (quoted quote cs).closed
        ∧ SameRest false (cs.drop (quoted quote cs).length)
          ((withReturns cs).drop (quoted quote (withReturns cs)).length)
      ∨ (!startsWithTwo quote cs && (cs.take (quoted quote cs).length).contains '\n') = true
        ∧ (quoted quote (withReturns cs)).closed = false := by
  simp only [quoted, startsWithTwo_withReturns hquote]
  by_cases htwo : startsWithTwo quote cs = true
  · left
    rw [if_pos htwo, if_pos htwo, htwo]
    obtain ⟨rest, rfl⟩ := startsWithTwo_iff.1 htwo
    have hne := ne_newline_of_isQuote hquote
    obtain ⟨hclosed, hrest⟩ := blockBody_withReturns hquote rest
    rw [withReturns_cons hne, withReturns_cons hne]
    refine ⟨rfl, hclosed, ?_⟩
    simp only [StringBody.after, ← List.drop_drop, List.drop_succ_cons, List.drop_zero, hrest]
    exact .all _ _
  · rw [if_neg htwo, if_neg htwo, Bool.eq_false_iff.2 htwo]
    by_cases hline : InFirstLine (lineBody quote cs).length cs
    · obtain ⟨hclosed, hrest⟩ := lineBody_withReturns hquote hline
      refine .inl ⟨?_, hclosed, hrest⟩
      simpa [InFirstLine] using hline
    · refine .inr ⟨?_, closed_lineBody_withReturns hquote hline⟩
      simpa [InFirstLine] using hline

/-- A literal is the same, or it is one in single quotes that goes on behind a line feed and is cut
    there. -/
theorem stringFront_withReturns {quote : Char} (hquote : isQuote quote = true) (marks : StringMarks)
    {letters : List Char} (hletters : ∀ c ∈ letters, isQuote c = false) (after : List Char) :
    Rereading (letters ++ quote :: after) (letters ++ quote :: withReturns after)
      (stringFront marks quote letters.length after)
      (stringFront marks quote letters.length (withReturns after)) := by
  have htake : ∀ n, (letters ++ quote :: after).take (letters.length + n + 1)
      = letters ++ quote :: after.take n := by
    intro n
    rw [Nat.add_assoc, List.take_length_add_append]
    rfl
  have hdrop : ∀ n (cs : List Char), (letters ++ quote :: cs).drop (letters.length + n + 1)
      = cs.drop n := by
    intro n cs
    rw [Nat.add_assoc, List.drop_length_add_append]
    rfl
  simp only [stringFront]
  rcases quoted_withReturns hquote after with ⟨hstays, hclosed, hrest⟩ | ⟨hcrosses, hclosed⟩
  · rw [hclosed]
    refine .token ?_ ?_ ?_
    · rw [htake, crossesLine_letters hletters hquote, startsWithTwo_take, hstays]
    · intro hname
      split at hname <;> cases hname
    · rw [hdrop, hdrop]
      split
      · exact hrest
      · exact hrest
  · rw [hclosed]
    refine .cut ?_
    rw [htake, crossesLine_letters hletters hquote, startsWithTwo_take, hcrosses]

/-! ### The front of a text -/

theorem wordFront_withReturns (v : Version) {first : Char}
    (hfirst : Text.isIdentStart first = true) (cs : List Char) :
    Rereading (first :: cs) (first :: withReturns cs) (wordFront v first cs)
      (wordFront v first (withReturns cs)) := by
  have hpart : ∀ c, Text.isIdentPart c = true → c ≠ '\n' := by
    rintro c hc rfl
    rw [isIdentPart_lineEnd.1] at hc
    cases hc
  rcases wordFront_cases v first cs with ⟨letters, quote, marks, after, rfl, hletters, hmarks⟩
    | ⟨letters, rest, rfl, hletters, hends, hnone⟩
  · rw [withReturns_line fun c hc => hpart c (hletters c hc),
      withReturns_cons (ne_newline_of_isQuote hmarks.isQuote), wordFront_literal hletters hmarks,
      wordFront_literal hletters hmarks]
    exact stringFront_withReturns hmarks.isQuote marks (isQuote_of_mem_letters hfirst hletters)
      after
  · have hsame : wordFront v first (withReturns (letters ++ rest))
        = wordFront v first (letters ++ rest) := by
      rw [withReturns_line fun c hc => hpart c (hletters c hc), wordFront_name hletters hends hnone]
      cases rest with
      | nil => exact wordFront_name hletters hends hnone
      | cons c rest =>
        by_cases hc : c = '\n'
        · -- A carriage return ends the letters, and is no more a quote than a line feed is.
          subst hc
          refine wordFront_name hletters ?_ ?_
          · rintro d ⟨⟩
            exact isIdentPart_lineEnd.2
          · rintro quote ⟨⟩ marks hmarks
            cases hmarks.isQuote
        · rw [withReturns_cons hc]
          exact wordFront_name hletters hends hnone
    refine .of_inFirstLine (hpart first (Text.isIdentPart_of_isIdentStart hfirst)) hsame ?_
    rw [wordFront_name hletters hends hnone, Front.more, ← countWhile_letters hletters hends]
    exact inFirstLine_countWhile isIdentPart_lineEnd.1 _

/-- A comment ends in front of a line feed, and takes the carriage return before it. -/
theorem comment_withReturns (cs : List Char) :
    cs.drop (countWhile (· != '\n') cs) = []
        ∧ (withReturns cs).drop (countWhile (· != '\n') (withReturns cs)) = []
      ∨ ∃ ds, cs.drop (countWhile (· != '\n') cs) = '\n' :: ds
        ∧ (withReturns cs).drop (countWhile (· != '\n') (withReturns cs))
          = '\n' :: withReturns ds := by
  simp only [countWhile]
  induction cs with
  | nil => exact .inl ⟨rfl, rfl⟩
  | cons c cs ih =>
    by_cases hc : c = '\n'
    · subst hc
      exact .inr ⟨cs, rfl, rfl⟩
    · have hcount : ∀ ds, (c :: ds).takeWhile (· != '\n') = c :: ds.takeWhile (· != '\n') :=
        fun ds => List.takeWhile_cons_of_pos (by simpa using hc)
      rw [withReturns_cons hc, hcount, hcount]
      exact ih

/-- A backslash hides a carriage return and a line feed as it hides a line feed. -/
private theorem backslash_withReturns (v : Version) (depth : Nat) (hreturn : '\r' ∉ cs) :
    Rereading ('\\' :: cs) ('\\' :: withReturns cs) (front v depth '\\' cs)
      (front v depth '\\' (withReturns cs)) := by
  rcases continues_or_not cs with ⟨ending, rest, rfl, hends⟩ | ⟨hfeed, hnone⟩
  · obtain rfl : ending = ['\n'] := by
      rcases hends with h | rfl | ⟨rfl, -⟩
      · exact h
      · simp at hreturn
      · simp at hreturn
    have hfront : front v depth '\\' (['\r', '\n'] ++ withReturns rest) = .skipped 2 :=
      front_continues (.inr (.inl rfl)) depth
    rw [front_continues hends]
    show Rereading _ _ _ (front v depth '\\' (['\r', '\n'] ++ withReturns rest))
    rw [hfront]
    exact .skipped (.all _ rest)
  · have hhead : (withReturns cs).head? = cs.head? := by
      cases cs with
      | nil => rfl
      | cons c cs => rw [withReturns_cons (fun h => hfeed (congrArg some h))]; rfl
    rw [front_backslash hfeed hnone, front_backslash (hhead ▸ hfeed) (hhead ▸ hnone)]
    exact .of_inFirstLine (by decide) rfl (inFirstLine_zero _)

/-- What stands at the front of a text without carriage returns, and of the same text with them. -/
theorem front_withReturns (v : Version) (depth : Nat) {first : Char} (hfirst : first ≠ '\n')
    (hreturn : '\r' ∉ cs) :
    Rereading (first :: cs) (first :: withReturns cs) (front v depth first cs)
      (front v depth first (withReturns cs)) := by
  by_cases hstarts : startsWord first = true
  · rw [front_of_startsWord hstarts, front_of_startsWord hstarts,
      countOne_withReturns (by decide) (by decide)]
    split
    · obtain ⟨hsame, hline⟩ := numberFront_withReturns v first cs
      exact .of_inFirstLine hfirst hsame hline
    · split
      · rename_i hquote
        exact stringFront_withReturns hquote .plain (List.forall_mem_nil _) cs
      · split
        · rename_i hident
          exact wordFront_withReturns v hident cs
        · obtain ⟨hsame, hline⟩ := operatorFront_withReturns v hfirst cs
          exact .of_inFirstLine hfirst hsame hline
  · rcases not_startsWord hstarts with hmargin | rfl | rfl | rfl
    · rw [front_margin hmargin, front_margin hmargin]
      exact .of_inFirstLine hfirst rfl (inFirstLine_zero cs)
    · exact absurd rfl hfirst
    · refine .skipped ?_
      rcases comment_withReturns cs with ⟨hrest, hrest'⟩ | ⟨ds, hrest, hrest'⟩
      · rw [List.drop_succ_cons, List.drop_succ_cons, hrest, hrest']
        exact .all _ []
      · rw [List.drop_succ_cons, List.drop_succ_cons, hrest, hrest']
        exact .feed ds
    · exact backslash_withReturns v depth hreturn

end Lexer

end PyAtlas
