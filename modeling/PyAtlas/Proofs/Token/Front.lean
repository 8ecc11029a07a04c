import Mathlib.Data.List.Find
import PyAtlas.Proofs.Token.FrontCases

/-!
# Words in front of a cut

What stands at the front of a text inside a line depends on the characters of that word and on
a few after it. Where a text is cut behind a line feed and the word ends before the cut,
nothing behind the cut matters: names, numbers and operators never reach over a line feed, and
a string literal that does was closed before.

## Key results
- `countWhile_append`, `countOne_append`: the same for the counts that words are made of.
- `front_append`: what follows the cut does not change a word before it.
-/

namespace PyAtlas

namespace Lexer

/-! ### Words before the cut -/

/-- The text ends with a line feed. -/
def Ended (cs : List Char) : Prop := ∃ before, cs = before ++ ['\n']

theorem Ended.ne_nil {cs : List Char} (h : Ended cs) : cs ≠ [] := by
  obtain ⟨before, rfl⟩ := h
  simp

theorem Ended.of_append (as : List Char) {bs : List Char} (h : Ended bs) :
    Ended (as ++ bs) := by
  obtain ⟨before, rfl⟩ := h
  exact ⟨as ++ before, by rw [List.append_assoc]⟩

/-- What is left of such a text ends with the same line feed. -/
theorem Ended.of_suffix (as : List Char) {bs : List Char} (h : Ended (as ++ bs))
    (hbs : bs ≠ []) : Ended bs := by
  obtain ⟨before, h⟩ := h
  obtain ⟨init, last, rfl⟩ : ∃ init last, bs = init ++ [last] :=
    ⟨_, _, (List.dropLast_concat_getLast hbs).symm⟩
  rw [← List.append_assoc] at h
  have hlast := (List.append_inj' h rfl).2
  rw [List.singleton_inj] at hlast
  exact ⟨init, by rw [hlast]⟩

theorem Ended.drop {cs : List Char} (h : Ended cs) {n : Nat} (hn : n < cs.length) :
    Ended (cs.drop n) := by
  rw [← List.take_append_drop n cs] at h
  refine Ended.of_suffix _ h ?_
  intro hnil
  have := congrArg List.length hnil
  simp only [List.length_drop, List.length_nil] at this
  omega

/-- A count of characters that are no line feeds stays within the line. -/
theorem Ended.countWhile_lt {cs : List Char} (h : Ended cs) {p : Char → Bool}
    (hp : p '\n' = false) : countWhile p cs < cs.length := by
  obtain ⟨before, rfl⟩ := h
  simp only [countWhile]
  induction before with
  | nil => simp [hp]
  | cons c cs ih =>
    simp only [List.cons_append, List.takeWhile_cons]
    split
    · simpa using ih
    · simp

/-- What is taken of a text and ends within it is the same where more text follows. -/
theorem takeWhile_append_lt {p : Char → Bool} {cs : List Char} (bs : List Char)
    (h : countWhile p cs < cs.length) : (cs ++ bs).takeWhile p = cs.takeWhile p := by
  simp only [countWhile] at h
  induction cs with
  | nil => simp at h
  | cons c cs ih =>
    simp only [List.cons_append, List.takeWhile_cons] at h ⊢
    split at h
    · rename_i hc
      rw [if_pos hc, if_pos hc, ih (by simpa using h)]
    · rename_i hc
      rw [if_neg hc, if_neg hc]

theorem countWhile_append {p : Char → Bool} {cs : List Char} (bs : List Char)
    (h : countWhile p cs < cs.length) : countWhile p (cs ++ bs) = countWhile p cs := by
  rw [countWhile, takeWhile_append_lt bs h, countWhile]

theorem drop_append_lt {cs : List Char} (bs : List Char) {n : Nat} (h : n < cs.length) :
    (cs ++ bs).drop n = cs.drop n ++ bs :=
  List.drop_append_of_le_length (Nat.le_of_lt h)

theorem countOne_append (p : Char → Bool) {cs : List Char} (bs : List Char) (h : cs ≠ []) :
    countOne p (cs ++ bs) = countOne p cs := by
  cases cs with
  | nil => exact absurd rfl h
  | cons c cs => rfl

theorem lineBody_cons (quote : Char) {c : Char} (hc : c ≠ '\\') (cs : List Char) :
    lineBody quote (c :: cs)
      = if c == '\n' then ⟨false, 0⟩
        else if c == quote then ⟨true, 1⟩
        else (lineBody quote cs).after 1 := by
  rw [lineBody]
  · intro h _; exact hc h
  · intro _ _ h _; exact hc h
theorem blockBody_cons (quote : Char) {c : Char} (hc : c ≠ '\\') (cs : List Char) :
    blockBody quote (c :: cs)
      = if c == quote && startsWithTwo quote cs then ⟨true, 3⟩
        else (blockBody quote cs).after 1 := by
  rw [blockBody]
  · intro h _; exact hc h
  · intro _ _ h _; exact hc h

/-- A backslash is handled by the first cases of a literal. -/
theorem ne_backslash {c : Char} {cs : List Char} (hnil : c = '\\' → cs = [] → False)
    (hcons : ∀ d ds, c = '\\' → cs = d :: ds → False) : c ≠ '\\' := by
  intro hc
  cases cs with
  | nil => exact hnil hc rfl
  | cons d ds => exact hcons d ds hc rfl

/-- A literal in single quotes that ends within a text. -/
private theorem lineBody_append (quote : Char) (cs bs : List Char)
    (h : (lineBody quote cs).length < cs.length) :
    lineBody quote (cs ++ bs) = lineBody quote cs := by
  fun_induction lineBody quote cs with
  | case1 => simp at h
  | case2 => simp at h
  | case3 c cs ih =>
    simp only [StringBody.after, List.length_cons] at h
    rw [List.cons_append, List.cons_append, lineBody, ih (by omega)]
  | case4 c cs hnil hcons hnl =>
    rw [List.cons_append, lineBody_cons quote (ne_backslash hnil hcons), if_pos hnl]
  | case5 c cs hnil hcons hnl hq =>
    rw [List.cons_append, lineBody_cons quote (ne_backslash hnil hcons), if_neg hnl, if_pos hq]
  | case6 c cs hnil hcons hnl hq ih =>
    simp only [StringBody.after, List.length_cons] at h
    rw [List.cons_append, lineBody_cons quote (ne_backslash hnil hcons), if_neg hnl, if_neg hq,
      ih (by omega)]

theorem startsWithTwo_append (quote : Char) {cs : List Char} (bs : List Char)
    (h : 2 ≤ cs.length) : startsWithTwo quote (cs ++ bs) = startsWithTwo quote cs := by
  match cs, h with
  | a :: b :: cs, _ => rfl

/-- Two characters at most do not close a literal in triple quotes. -/
private theorem length_blockBody_of_short (quote : Char) (cs : List Char) (h : cs.length < 2) :
    (blockBody quote cs).length = cs.length := by
  match cs, h with
  | [], _ => rfl
  | [c], _ =>
    by_cases hc : c = '\\'
    · subst hc
      rfl
    · rw [blockBody_cons quote hc]
      simp [startsWithTwo, StringBody.after, blockBody]

/-- A literal in triple quotes that ends within a text. -/
private theorem blockBody_append (quote : Char) (cs bs : List Char)
    (h : (blockBody quote cs).length < cs.length) :
    blockBody quote (cs ++ bs) = blockBody quote cs := by
  fun_induction blockBody quote cs with
  | case1 => simp at h
  | case2 => simp at h
  | case3 c cs ih =>
    simp only [StringBody.after, List.length_cons] at h
    rw [List.cons_append, List.cons_append, blockBody, ih (by omega)]
  | case4 c cs hnil hcons hq =>
    -- The literal is closed here. Both quotes that follow stand before the end of the text.
    have hlong : 2 ≤ cs.length := by
      have : 3 < cs.length + 1 := by simpa using h
      omega
    rw [List.cons_append, blockBody_cons quote (ne_backslash hnil hcons),
      startsWithTwo_append quote bs hlong, if_pos hq]
  | case5 c cs hnil hcons hq ih =>
    simp only [StringBody.after, List.length_cons] at h
    -- A text of fewer than two characters would be read up to its end.
    have hlong : 2 ≤ cs.length := by
      have hshort := length_blockBody_of_short quote cs
      omega
    rw [List.cons_append, blockBody_cons quote (ne_backslash hnil hcons),
      startsWithTwo_append quote bs hlong, if_neg hq, ih (by omega)]

/-- A text of one character that ends with a line feed. -/
theorem Ended.eq_of_length_lt {cs : List Char} (h : Ended cs) (hlength : cs.length < 2) :
    cs = ['\n'] := by
  obtain ⟨before, rfl⟩ := h
  rw [List.length_append, List.length_singleton] at hlength
  rw [List.length_eq_zero_iff.1 (show before.length = 0 by omega), List.nil_append]

/-- What follows a character that is no line feed ends with one as well. -/
theorem Ended.tail {c : Char} {cs : List Char} (h : Ended (c :: cs)) (hc : c ≠ '\n') :
    Ended cs := by
  refine Ended.of_suffix [c] h ?_
  rintro rfl
  exact hc (List.cons.inj (h.eq_of_length_lt (Nat.lt_succ_self 1))).1

private theorem quoted_append {quote : Char} (hquote : quote ≠ '\n') {cs : List Char}
    (bs : List Char) (hcs : Ended cs) (h : (quoted quote cs).length < cs.length) :
    quoted quote (cs ++ bs) = quoted quote cs := by
  have hsame : startsWithTwo quote (cs ++ bs) = startsWithTwo quote cs := by
    by_cases hlong : 2 ≤ cs.length
    · exact startsWithTwo_append quote bs hlong
    · rw [hcs.eq_of_length_lt (by omega)]
      cases bs with
      | nil => rfl
      | cons b bs => simp [startsWithTwo, hquote.symm]
  simp only [quoted] at h ⊢
  rw [hsame]
  split at h
  · rename_i htwo
    rw [if_pos htwo, if_pos htwo]
    simp only [StringBody.after] at h
    have hlong : 2 < cs.length := by omega
    rw [drop_append_lt bs hlong, blockBody_append quote _ bs (by rw [List.length_drop]; omega)]
  · rename_i htwo
    rw [if_neg htwo, if_neg htwo, lineBody_append quote cs bs h]

/-- The number of characters of the word at the front, the first one apart. -/
def Front.more : Front → Nat
  | .skipped n => n
  | .token _ n => n

private theorem stringFront_append {marks : StringMarks} {quote : Char} (hquote : quote ≠ '\n')
    {n : Nat} {cs : List Char} (bs : List Char) (hcs : Ended cs)
    (h : (stringFront marks quote n cs).more < n + cs.length) :
    stringFront marks quote n (cs ++ bs) = stringFront marks quote n cs := by
  simp only [stringFront, Front.more] at h ⊢
  rw [quoted_append hquote bs hcs (by omega)]

private theorem mantissa_append (first : Char) {cs : List Char} (bs : List Char)
    (hcs : Ended cs) :
    mantissa first (cs ++ bs) = mantissa first cs ∧ (mantissa first cs).2 < cs.length := by
  have hn := hcs.countWhile_lt (p := isDigitOrBreak) (by decide)
  simp only [mantissa]
  rw [countWhile_append bs hn, drop_append_lt bs hn]
  split
  · exact ⟨rfl, hn⟩
  · have hdrop := hcs.drop hn
    have hlength := congrArg List.length (List.take_append_drop (countWhile isDigitOrBreak cs) cs)
    rw [List.length_append, List.length_take] at hlength
    revert hdrop hlength
    -- The digits in front end before the line feed, so what is behind them is not empty.
    generalize cs.drop (countWhile isDigitOrBreak cs) = rest
    intro hdrop hlength
    match rest, hdrop with
    | [], hdrop => exact absurd rfl hdrop.ne_nil
    | c :: fraction, hdrop =>
      by_cases hc : c = '.'
      · subst hc
        have hfraction : Ended fraction := hdrop.tail (by decide)
        have hm := hfraction.countWhile_lt (p := isDigitOrBreak) (by decide)
        simp only [List.cons_append]
        rw [countWhile_append bs hm]
        refine ⟨rfl, ?_⟩
        simp only [List.length_cons] at hlength ⊢
        omega
      · simp only [List.cons_append]
        split
        · rename_i heq
          cases heq
          exact absurd rfl hc
        · split
          · rename_i heq
            cases heq
            exact absurd rfl hc
          · exact ⟨rfl, hn⟩

private theorem exponentLength_append {cs : List Char} (bs : List Char) (hcs : Ended cs) :
    exponentLength (cs ++ bs) = exponentLength cs ∧ exponentLength cs < cs.length := by
  match cs, hcs with
  | [], hcs => exact absurd rfl hcs.ne_nil
  | [c], hcs =>
    rw [hcs.eq_of_length_lt (by simp)]
    refine ⟨?_, by decide⟩
    cases bs with
    | nil => rfl
    | cons b bs => rfl
  | e :: d :: cs, hcs =>
    have htail : cs ≠ [] → Ended cs := Ended.of_suffix [e, d] hcs
    -- Where nothing follows the first two characters, the second one is the line feed.
    have hlast : cs = [] → d = '\n' := by
      intro hnil
      subst hnil
      have := Ended.of_suffix [e] hcs (by simp)
      simpa using this.eq_of_length_lt (by simp)
    simp only [List.cons_append, exponentLength]
    split
    · split
      · rename_i hd
        have hcs' : Ended cs := htail (fun hnil => by rw [hlast hnil] at hd; cases hd)
        have hn := hcs'.countWhile_lt (p := isDigitOrBreak) (by decide)
        rw [countWhile_append bs hn]
        refine ⟨rfl, ?_⟩
        simp only [List.length_cons]
        omega
      · by_cases hnil : cs = []
        · subst hnil
          rw [hlast rfl]
          exact ⟨rfl, by simp⟩
        · have hn := (htail hnil).countWhile_lt (p := isDigitOrBreak) (by decide)
          rw [countOne_append _ bs hnil, countWhile_append bs hn]
          refine ⟨rfl, ?_⟩
          split
          · simp only [List.length_cons]
            omega
          · simp
    · exact ⟨rfl, by simp⟩

private theorem decimalFront_append (v : Version) (first : Char) {cs : List Char}
    (bs : List Char) (hcs : Ended cs) :
    decimalFront v first (cs ++ bs) = decimalFront v first cs := by
  obtain ⟨hmantissa, hn⟩ := mantissa_append first bs hcs
  obtain ⟨hexponent, he⟩ := exponentLength_append bs (hcs.drop hn)
  have hlt : (mantissa first cs).2 + exponentLength (cs.drop (mantissa first cs).2)
      < cs.length := by
    rw [List.length_drop] at he
    omega
  simp only [decimalFront]
  rw [hmantissa, drop_append_lt bs hn, hexponent, drop_append_lt bs hlt,
    countOne_append _ bs (hcs.drop hlt).ne_nil, countOne_append _ bs (hcs.drop hlt).ne_nil]

private theorem radixFront_append {cs : List Char} (bs : List Char) (hcs : Ended cs)
    (hlong : 1 < cs.length) : radixFront (cs ++ bs) = radixFront cs := by
  have hn := (hcs.drop hlong).countWhile_lt (p := fun c => Text.isHexDigit c || c == '_')
    (by decide)
  have hlt : 1 + countWhile (fun c => Text.isHexDigit c || c == '_') (cs.drop 1)
      < cs.length := by
    rw [List.length_drop] at hn
    omega
  simp only [radixFront]
  rw [drop_append_lt bs hlong, countWhile_append bs hn, drop_append_lt bs hlt,
    countOne_append _ bs (hcs.drop hlt).ne_nil]

private theorem numberFront_append (v : Version) (first : Char) {cs : List Char}
    (bs : List Char) (hcs : Ended cs) :
    numberFront v first (cs ++ bs) = numberFront v first cs := by
  simp only [numberFront]
  rw [countOne_append _ bs hcs.ne_nil, decimalFront_append v first bs hcs]
  split
  · rename_i hradix
    refine radixFront_append bs hcs ?_
    by_cases hlong : 1 < cs.length
    · exact hlong
    · rw [hcs.eq_of_length_lt (by omega)] at hradix
      simp [countOne, isRadixMark] at hradix
  · rfl

/-- A line end is part of no name. -/
theorem isIdentPart_lineEnd :
    Text.isIdentPart '\n' = false ∧ Text.isIdentPart '\r' = false := by
  decide +kernel

private theorem wordFront_append (v : Version) (first : Char) {cs : List Char}
    (bs : List Char) (hcs : Ended cs) (h : (wordFront v first cs).more < cs.length) :
    wordFront v first (cs ++ bs) = wordFront v first cs := by
  rcases wordFront_cases v first cs with ⟨letters, quote, marks, after, rfl, hletters, hmarks⟩
    | ⟨letters, rest, rfl, hletters, hends, hnone⟩
  · have hne := ne_newline_of_isQuote hmarks.isQuote
    have hafter : Ended after := (hcs.of_suffix letters (List.cons_ne_nil quote after)).tail hne
    rw [wordFront_literal hletters hmarks] at h
    rw [List.append_assoc, List.cons_append, wordFront_literal hletters hmarks,
      wordFront_literal hletters hmarks]
    refine stringFront_append hne bs hafter ?_
    rw [List.length_append, List.length_cons] at h
    omega
  · cases rest with
    | nil =>
      rw [wordFront_name hletters hends hnone, List.append_nil] at h
      exact absurd h (Nat.lt_irrefl _)
    | cons c rest =>
      -- The letters end in front of the same character.
      have hname : ∀ cs, wordFront v first (letters ++ c :: cs)
          = .token (wordKind v (String.ofList (first :: letters))) letters.length :=
        fun cs => wordFront_name hletters hends hnone
      rw [List.append_assoc, List.cons_append, hname, hname]

private theorem isPrefixOf_append {spelling cs : List Char} (bs : List Char) (hcs : Ended cs)
    (hspelling : '\n' ∉ spelling) :
    spelling.isPrefixOf (cs ++ bs) = spelling.isPrefixOf cs := by
  induction spelling generalizing cs with
  | nil => simp
  | cons s spelling ih =>
    simp only [List.mem_cons, not_or] at hspelling
    match cs, hcs with
    | [], hcs => exact absurd rfl hcs.ne_nil
    | c :: cs, hcs =>
      simp only [List.cons_append, List.isPrefixOf_cons_cons]
      by_cases hnil : cs = []
      · subst hnil
        have hc := hcs.eq_of_length_lt (by simp)
        simp only [List.cons.injEq, and_true] at hc
        rw [hc, beq_false_of_ne (Ne.symm hspelling.1)]
        rfl
      · rw [ih (Ended.of_suffix [c] hcs hnil) hspelling.2]

private theorem operators_no_newline : ∀ entry ∈ operators, '\n' ∉ entry.1 := by
  decide

private theorem operatorFront_append (v : Version) (first : Char) {cs : List Char}
    (bs : List Char) (hcs : Ended cs) :
    operatorFront v first (cs ++ bs) = operatorFront v first cs := by
  have hsame : operators.find? (fun entry =>
      entry.1.isPrefixOf (first :: (cs ++ bs)) && operatorExists v entry)
        = operators.find? fun entry =>
          entry.1.isPrefixOf (first :: cs) && operatorExists v entry := by
    refine List.find?_congr fun entry hentry => ?_
    have hspelled := isPrefixOf_append bs (Ended.of_append [first] hcs)
      (operators_no_newline entry hentry)
    rw [List.singleton_append, List.cons_append] at hspelled
    rw [hspelled]
  rw [operatorFront, operatorFront, hsame]

/-- A word that leaves some text before the cut. -/
private theorem wordsFront_append (v : Version) (depth : Nat) {first : Char}
    (hstarts : startsWord first = true) {cs : List Char} (bs : List Char) (hcs : Ended cs)
    (h : (front v depth first cs).more < cs.length) :
    front v depth first (cs ++ bs) = front v depth first cs := by
  have hne : first ≠ '\n' := (startsWord_iff.1 hstarts).2.1
  rw [front_of_startsWord hstarts] at h
  rw [front_of_startsWord hstarts, front_of_startsWord hstarts, countOne_append _ bs hcs.ne_nil,
    numberFront_append v first bs hcs, operatorFront_append v first bs hcs]
  split
  · rfl
  · rename_i hnumber
    rw [if_neg hnumber] at h
    split
    · rename_i hquote
      rw [if_pos hquote] at h
      exact stringFront_append hne bs hcs (by omega)
    · rename_i hquote
      rw [if_neg hquote] at h
      split
      · rename_i hstart
        rw [if_pos hstart] at h
        exact wordFront_append v first bs hcs h
      · rfl

/-- What follows the cut does not change a word before it that leaves some text before the
    cut. -/
theorem front_append (v : Version) (depth : Nat) (first : Char) {cs : List Char}
    (bs : List Char) (hcs : Ended cs) (h : (front v depth first cs).more < cs.length) :
    front v depth first (cs ++ bs) = front v depth first cs := by
  by_cases hstarts : startsWord first = true
  · exact wordsFront_append v depth hstarts bs hcs h
  · rcases not_startsWord hstarts with hmargin | rfl | rfl | rfl
    · rw [front_margin hmargin, front_margin hmargin]
    · rfl
    · have hcount := countWhile_append bs (hcs.countWhile_lt (p := (· != '\n')) (by decide))
      exact congrArg Front.skipped hcount
    · rcases continues_or_not cs with ⟨ending, rest, rfl, hends⟩ | ⟨hfeed, hreturn⟩
      · -- A carriage return at the cut would not be the line feed that stands there.
        have hends' : Continues ending (rest ++ bs) := by
          cases rest with
          | cons c rest => exact hends.congr rfl
          | nil =>
            rw [List.append_nil] at hcs
            rcases hends with rfl | rfl | ⟨rfl, -⟩
            · exact .inl rfl
            · exact .inr (.inl rfl)
            · exact absurd (hcs.eq_of_length_lt (by simp)) (by decide)
        rw [List.append_assoc, front_continues hends', front_continues hends]
      · have hhead : (cs ++ bs).head? = cs.head? := by
          obtain ⟨c, cs, rfl⟩ := List.exists_cons_of_ne_nil hcs.ne_nil
          rfl
        rw [front_backslash (hhead ▸ hfeed) (hhead ▸ hreturn), front_backslash hfeed hreturn]

end Lexer

end PyAtlas
