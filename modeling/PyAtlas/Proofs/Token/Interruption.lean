import PyAtlas.Proofs.Token.HeldLines

/-!
# Words in front of a backslash

A word ends where the characters that follow do not go on with it, and a backslash goes on with no
word. So a word that ends at some place of a text, or before it, is the same word if a backslash
stands at that place, whatever stood there before. The text behind the place must only not begin
with a line feed, since that ends a literal and a comment and a backslash does not.

## Key results
- `countWhile_interrupted`, `countOne_interrupted`: the same for the counts that words are made of.
- `front_interrupted`: what stands at the front of a text that goes on with a backslash.
-/

namespace PyAtlas

namespace Lexer

variable {a b : List Char} (ds : List Char)

/-! ### Counts -/

theorem countWhile_interrupted {p : Char → Bool} (hp : p '\\' = false)
    (h : countWhile p (a ++ b) ≤ a.length) :
    countWhile p (a ++ '\\' :: ds) = countWhile p (a ++ b) := by
  simp only [countWhile] at h ⊢
  induction a with
  | nil =>
    rw [List.nil_append, List.takeWhile_cons_of_neg (by simp [hp])]
    exact (Nat.le_zero.1 h).symm
  | cons c a ih =>
    simp only [List.cons_append, List.takeWhile_cons] at h ⊢
    split at h
    · rename_i hc
      simp only [List.length_cons, Nat.add_le_add_iff_right] at h
      rw [if_pos hc, if_pos hc, List.length_cons, List.length_cons, ih h]
    · rename_i hc
      rw [if_neg hc, if_neg hc]

theorem countOne_interrupted {p : Char → Bool} (hp : p '\\' = false)
    (h : countOne p (a ++ b) ≤ a.length) :
    countOne p (a ++ '\\' :: ds) = countOne p (a ++ b) := by
  cases a with
  | nil =>
    have hzero : countOne p b = 0 := Nat.le_zero.1 h
    show (if p '\\' then 1 else 0) = countOne p b
    rw [hp, hzero]
    rfl
  | cons c a => rfl

theorem countOne_eq_zero_or (p : Char → Bool) (cs : List Char) :
    countOne p cs = 0 ∨ countOne p cs = 1 := by
  cases cs with
  | nil => exact .inl rfl
  | cons c cs =>
    rw [countOne]
    split
    · exact .inr rfl
    · exact .inl rfl

theorem countOne_le_countWhile {p q : Char → Bool} (cs : List Char)
    (hpq : ∀ c, p c = true → q c = true) : countOne p cs ≤ countWhile q cs := by
  cases cs with
  | nil => exact Nat.le_refl 0
  | cons c cs =>
    rw [countOne]
    split
    · rename_i hc
      rw [countWhile, List.takeWhile_cons_of_pos (hpq c hc)]
      exact Nat.succ_le_succ (Nat.zero_le _)
    · exact Nat.zero_le _

theorem isDigitOrBreak_of_isDigit (c : Char) (h : c.isDigit = true) : isDigitOrBreak c = true := by
  rw [isDigitOrBreak, h, Bool.true_or]

/-- The same behind some characters that have been counted. -/
theorem countOne_drop_interrupted {p : Char → Bool} (hp : p '\\' = false) {n : Nat}
    (h : n + countOne p ((a ++ b).drop n) ≤ a.length) :
    countOne p ((a ++ '\\' :: ds).drop n) = countOne p ((a ++ b).drop n) := by
  have hn : n ≤ a.length := by omega
  rw [List.drop_append_of_le_length hn] at h ⊢
  rw [List.drop_append_of_le_length hn]
  exact countOne_interrupted ds hp (by rw [List.length_drop]; omega)

/-! ### Numbers -/

theorem exponentLength_eq_zero_or (cs : List Char) :
    exponentLength cs = 0 ∨ 2 ≤ exponentLength cs := by
  unfold exponentLength
  split
  · split
    · split
      · exact .inr (Nat.le_add_right _ _)
      · split
        · exact .inr (Nat.le_add_right _ _)
        · exact .inl rfl
    · exact .inl rfl
  · exact .inl rfl

private theorem exponentLength_interrupted (h : exponentLength (a ++ b) ≤ a.length) :
    exponentLength (a ++ '\\' :: ds) = exponentLength (a ++ b) := by
  match a, h with
  | [], h =>
    rw [Nat.le_zero.1 h]
    cases ds with
    | nil => rfl
    | cons d ds => rfl
  | [e], h =>
    rcases exponentLength_eq_zero_or ([e] ++ b) with hzero | htwo
    · rw [hzero]
      show exponentLength (e :: '\\' :: ds) = 0
      simp [exponentLength, Char.isDigit]
    · exact absurd (Nat.le_trans htwo h) (by simp)
  | e :: d :: a, h =>
    simp only [List.cons_append, exponentLength, List.length_cons] at h ⊢
    split
    · rename_i he
      rw [if_pos he] at h
      have hcount : countWhile isDigitOrBreak (a ++ b) ≤ a.length →
          countWhile isDigitOrBreak (a ++ '\\' :: ds) = countWhile isDigitOrBreak (a ++ b) :=
        countWhile_interrupted ds (by decide)
      split
      · rename_i hd
        rw [if_pos hd] at h
        rw [hcount (by omega)]
      · rename_i hd
        rw [if_neg hd] at h
        by_cases hsign : (d == '+' || d == '-') = true
        · -- A digit behind the sign is read with the exponent.
          have hdigit : countOne Char.isDigit (a ++ '\\' :: ds)
              = countOne Char.isDigit (a ++ b) := by
            refine countOne_interrupted ds (by decide) ?_
            rcases countOne_eq_zero_or Char.isDigit (a ++ b) with hzero | hone
            · omega
            · have hle := countOne_le_countWhile (a ++ b) isDigitOrBreak_of_isDigit
              rw [hsign, hone, if_pos (by rfl)] at h
              omega
          rw [hdigit]
          split
          · rename_i hboth
            rw [if_pos hboth] at h
            rw [hcount (by omega)]
          · rfl
        · rw [Bool.eq_false_iff.2 hsign]
          rfl
    · rfl

private theorem mantissa_interrupted (first : Char)
    (h : (mantissa first (a ++ b)).2 ≤ a.length) :
    mantissa first (a ++ '\\' :: ds) = mantissa first (a ++ b) := by
  simp only [mantissa] at h ⊢
  have hn : countWhile isDigitOrBreak (a ++ b) ≤ a.length := by
    split at h
    · exact h
    · split at h
      · dsimp only at h
        omega
      · exact h
  rw [countWhile_interrupted ds (by decide) hn]
  split
  · rfl
  · rename_i hfirst
    rw [if_neg hfirst] at h
    have hlength : (a.drop (countWhile isDigitOrBreak (a ++ b))).length
        + countWhile isDigitOrBreak (a ++ b) = a.length := by
      rw [List.length_drop]
      omega
    rw [List.drop_append_of_le_length hn] at h ⊢
    rw [List.drop_append_of_le_length hn]
    revert h hlength
    generalize a.drop (countWhile isDigitOrBreak (a ++ b)) = rest
    generalize countWhile isDigitOrBreak (a ++ b) = n
    intro h hlength
    cases rest with
    | nil =>
      cases b with
      | nil => rfl
      | cons c b =>
        by_cases hpoint : c = '.'
        · -- The point would be read.
          subst hpoint
          simp only [List.nil_append, List.length_nil] at h hlength
          omega
        · simp [hpoint]
    | cons c rest =>
      by_cases hpoint : c = '.'
      · subst hpoint
        simp only [List.cons_append, List.length_cons] at h hlength ⊢
        rw [countWhile_interrupted (b := b) ds (by decide) (by omega)]
      · simp [hpoint]

theorem le_decimalFront (v : Version) (first : Char) (cs : List Char) :
    (mantissa first cs).2 + exponentLength (cs.drop (mantissa first cs).2)
      ≤ (decimalFront v first cs).more := by
  simp only [decimalFront]
  generalize (if exponentLength (cs.drop (mantissa first cs).2) == 0 then (mantissa first cs).1
    else NumberKind.float) = kind
  split
  · exact Nat.le_succ _
  · split
    · exact Nat.le_add_right _ _
    · exact Nat.le_refl _

private theorem decimalFront_interrupted (v : Version) (first : Char)
    (h : (decimalFront v first (a ++ b)).more ≤ a.length) :
    decimalFront v first (a ++ '\\' :: ds) = decimalFront v first (a ++ b) := by
  have hle := Nat.le_trans (le_decimalFront v first (a ++ b)) h
  have hm := Nat.le_trans (Nat.le_add_right _ _) hle
  have hexponent : exponentLength ((a ++ '\\' :: ds).drop (mantissa first (a ++ b)).2)
      = exponentLength ((a ++ b).drop (mantissa first (a ++ b)).2) := by
    rw [List.drop_append_of_le_length hm] at hle ⊢
    rw [List.drop_append_of_le_length hm]
    exact exponentLength_interrupted ds (by rw [List.length_drop]; omega)
  simp only [decimalFront] at h ⊢
  rw [mantissa_interrupted ds first hm, hexponent]
  clear hexponent
  generalize exponentLength ((a ++ b).drop (mantissa first (a ++ b)).2) = e at h hle ⊢
  generalize mantissa first (a ++ b) = digits at h hle ⊢
  obtain ⟨kind, m⟩ := digits
  dsimp only at h hle ⊢
  generalize (if e == 0 then kind else NumberKind.float) = kind at h ⊢
  -- The mark of an imaginary number, or of a long one, is read with the number.
  have himaginary : countOne isImaginaryMark ((a ++ '\\' :: ds).drop (m + e))
      = countOne isImaginaryMark ((a ++ b).drop (m + e)) := by
    refine countOne_drop_interrupted ds (by decide) ?_
    rcases countOne_eq_zero_or isImaginaryMark ((a ++ b).drop (m + e)) with hzero | hone
    · omega
    · rw [hone, if_pos (by rfl)] at h
      rw [hone]
      exact h
  rw [himaginary]
  split
  · rfl
  · rename_i hnot
    rw [if_neg hnot] at h
    split
    · rename_i hlong
      rw [if_pos hlong] at h
      rw [countOne_drop_interrupted (b := b) ds (by decide) h]
    · rfl

private theorem radixFront_interrupted (h : (radixFront (a ++ b)).more ≤ a.length) :
    radixFront (a ++ '\\' :: ds) = radixFront (a ++ b) := by
  simp only [radixFront, Front.more] at h ⊢
  have hone : 1 ≤ a.length := by omega
  have hcount : countWhile (fun c => Text.isHexDigit c || c == '_') ((a ++ '\\' :: ds).drop 1)
      = countWhile (fun c => Text.isHexDigit c || c == '_') ((a ++ b).drop 1) := by
    rw [List.drop_append_of_le_length hone] at h ⊢
    rw [List.drop_append_of_le_length hone]
    exact countWhile_interrupted ds (by decide) (by rw [List.length_drop]; omega)
  rw [hcount, countOne_drop_interrupted ds (by decide) h]

private theorem numberFront_interrupted (v : Version) (first : Char)
    (h : (numberFront v first (a ++ b)).more ≤ a.length) :
    numberFront v first (a ++ '\\' :: ds) = numberFront v first (a ++ b) := by
  simp only [numberFront] at h ⊢
  have hmark : (first == '0') = true → countOne isRadixMark (a ++ '\\' :: ds)
      = countOne isRadixMark (a ++ b) := by
    intro hfirst
    refine countOne_interrupted ds (by decide) ?_
    rcases countOne_eq_zero_or isRadixMark (a ++ b) with hzero | hone
    · omega
    · rw [hfirst, hone, if_pos (by rfl)] at h
      simp only [radixFront, Front.more] at h
      omega
  by_cases hfirst : (first == '0') = true
  · rw [hmark hfirst]
    split
    · rename_i hradix
      rw [if_pos hradix] at h
      exact radixFront_interrupted ds h
    · rename_i hradix
      rw [if_neg hradix] at h
      exact decimalFront_interrupted ds v first h
  · rw [Bool.eq_false_iff.2 hfirst] at h ⊢
    exact decimalFront_interrupted ds v first h

theorem countWhile_le_numberFront_point (v : Version) (cs : List Char) :
    countWhile isDigitOrBreak cs ≤ (numberFront v '.' cs).more :=
  Nat.le_trans (Nat.le_add_right _ _) (le_decimalFront v '.' cs)

/-- Whether a number begins with a point: a digit behind the point is read with it. -/
private theorem beginsNumber_interrupted (v : Version) {first : Char}
    (h : (first == '.' && countOne Char.isDigit (a ++ b) == 1) = true →
      (numberFront v first (a ++ b)).more ≤ a.length) :
    (first == '.' && countOne Char.isDigit (a ++ '\\' :: ds) == 1)
      = (first == '.' && countOne Char.isDigit (a ++ b) == 1) := by
  by_cases hfirst : first = '.'
  · subst hfirst
    have hle : countOne Char.isDigit (a ++ b) ≤ a.length := by
      rcases countOne_eq_zero_or Char.isDigit (a ++ b) with hzero | hone
      · omega
      · have hread := h (by rw [hone]; rfl)
        have hcount := countOne_le_countWhile (a ++ b) isDigitOrBreak_of_isDigit
        exact Nat.le_trans hcount (Nat.le_trans (countWhile_le_numberFront_point v (a ++ b)) hread)
    rw [countOne_interrupted ds (by decide) hle]
  · rw [beq_false_of_ne hfirst, Bool.false_and, Bool.false_and]

/-! ### Literals -/

section Literals

variable {quote : Char} {c : Char}

theorem lineBody_pos (quote : Char) (hc : c ≠ '\n') (cs : List Char) :
    0 < (lineBody quote (c :: cs)).length := by
  by_cases hbackslash : c = '\\'
  · subst hbackslash
    cases cs with
    | nil => exact Nat.one_pos
    | cons d cs =>
      simp only [lineBody, StringBody.after]
      omega
  · rw [lineBody_cons quote hbackslash, if_neg (by simpa using hc)]
    split
    · exact Nat.one_pos
    · exact Nat.lt_of_lt_of_le Nat.one_pos (Nat.le_add_right 1 _)

theorem blockBody_pos (quote c : Char) (cs : List Char) :
    0 < (blockBody quote (c :: cs)).length := by
  by_cases hbackslash : c = '\\'
  · subst hbackslash
    cases cs with
    | nil => exact Nat.one_pos
    | cons d cs =>
      simp only [blockBody, StringBody.after]
      omega
  · rw [blockBody_cons quote hbackslash]
    split
    · exact Nat.succ_pos 2
    · exact Nat.lt_of_lt_of_le Nat.one_pos (Nat.le_add_right 1 _)

/-- A literal in single quotes ends with its quote, or in front of a line feed. -/
private theorem lineBody_interrupted (hc : c ≠ '\n') : (a : List Char) →
    (lineBody quote (a ++ c :: b)).length ≤ a.length →
    lineBody quote (a ++ '\\' :: ds) = lineBody quote (a ++ c :: b)
  | [], h => absurd (lineBody_pos quote hc b) (Nat.not_lt.2 h)
  | x :: a, h => by
    by_cases hbackslash : x = '\\'
    · subst hbackslash
      cases a with
      | nil =>
        simp only [List.singleton_append, lineBody, StringBody.after, List.length_singleton] at h
        omega
      | cons y a =>
        simp only [List.cons_append, lineBody, StringBody.after, List.length_cons] at h ⊢
        rw [lineBody_interrupted hc a (by omega)]
    · rw [List.cons_append, lineBody_cons quote hbackslash] at h ⊢
      rw [List.cons_append, lineBody_cons quote hbackslash]
      split
      · rfl
      · rename_i hfeed
        rw [if_neg hfeed] at h
        split
        · rfl
        · rename_i hquote
          rw [if_neg hquote] at h
          have hle : 1 + (lineBody quote (a ++ c :: b)).length ≤ a.length + 1 := h
          rw [lineBody_interrupted hc a (by omega)]

/-- Whether two more quotes follow is the same if they stand before the place. -/
private theorem startsWithTwo_interrupted (hquote : quote ≠ '\\')
    (h : startsWithTwo quote (a ++ b) = true → 2 ≤ a.length) :
    startsWithTwo quote (a ++ '\\' :: ds) = startsWithTwo quote (a ++ b) := by
  by_cases hlong : 2 ≤ a.length
  · rw [startsWithTwo_append quote _ hlong, startsWithTwo_append quote _ hlong]
  · rw [Bool.eq_false_iff.2 (mt h hlong)]
    match a, hlong with
    | [], _ =>
      cases ds with
      | nil => rfl
      | cons d ds => simp [startsWithTwo, hquote.symm]
    | [x], _ => simp [startsWithTwo, hquote.symm]
    | _ :: _ :: _, hlong => simp at hlong

/-- A literal in triple quotes ends with them. -/
private theorem blockBody_interrupted (hquote : quote ≠ '\\') : (a : List Char) →
    (blockBody quote (a ++ c :: b)).length ≤ a.length →
    blockBody quote (a ++ '\\' :: ds) = blockBody quote (a ++ c :: b)
  | [], h => absurd (blockBody_pos quote c b) (Nat.not_lt.2 h)
  | x :: a, h => by
    by_cases hbackslash : x = '\\'
    · subst hbackslash
      cases a with
      | nil =>
        simp only [List.singleton_append, blockBody, StringBody.after, List.length_singleton] at h
        omega
      | cons y a =>
        simp only [List.cons_append, blockBody, StringBody.after, List.length_cons] at h ⊢
        rw [blockBody_interrupted hquote a (by omega)]
    · rw [List.cons_append, blockBody_cons quote hbackslash] at h ⊢
      rw [List.cons_append, blockBody_cons quote hbackslash]
      have htwo : (x == quote) = true → startsWithTwo quote (a ++ '\\' :: ds)
          = startsWithTwo quote (a ++ c :: b) := by
        intro hx
        refine startsWithTwo_interrupted ds hquote fun htwo => ?_
        rw [hx, htwo, if_pos (by rfl)] at h
        exact Nat.le_of_succ_le_succ h
      have hsame : (x == quote && startsWithTwo quote (a ++ '\\' :: ds))
          = (x == quote && startsWithTwo quote (a ++ c :: b)) := by
        cases hx : x == quote with
        | false => rfl
        | true => rw [htwo hx]
      rw [hsame]
      split
      · rfl
      · rename_i hnot
        rw [if_neg hnot] at h
        have hle : 1 + (blockBody quote (a ++ c :: b)).length ≤ a.length + 1 := h
        rw [blockBody_interrupted hquote a (by omega)]

private theorem stringFront_interrupted (hquote : quote ≠ '\\') (hc : c ≠ '\n')
    {marks : StringMarks} {n : Nat}
    (h : (stringFront marks quote n (a ++ c :: b)).more ≤ n + a.length) :
    stringFront marks quote n (a ++ '\\' :: ds) = stringFront marks quote n (a ++ c :: b) := by
  simp only [stringFront, Front.more] at h ⊢
  have hle : (quoted quote (a ++ c :: b)).length ≤ a.length := by omega
  suffices hsame : quoted quote (a ++ '\\' :: ds) = quoted quote (a ++ c :: b) by rw [hsame]
  clear h
  simp only [quoted] at hle ⊢
  have htwo : startsWithTwo quote (a ++ '\\' :: ds) = startsWithTwo quote (a ++ c :: b) := by
    refine startsWithTwo_interrupted ds hquote fun htwo => ?_
    rw [if_pos htwo] at hle
    exact Nat.le_trans (Nat.le_add_right 2 _) hle
  rw [htwo]
  split
  · rename_i htwo
    rw [if_pos htwo] at hle
    have hlong : 2 ≤ a.length := Nat.le_trans (Nat.le_add_right 2 _) hle
    rw [List.drop_append_of_le_length hlong] at hle ⊢
    rw [List.drop_append_of_le_length hlong]
    have hblock : 2 + (blockBody quote (a.drop 2 ++ c :: b)).length ≤ a.length := hle
    rw [blockBody_interrupted (b := b) (c := c) ds hquote (a.drop 2)
      (by rw [List.length_drop]; omega)]
  · rename_i htwo
    rw [if_neg htwo] at hle
    exact lineBody_interrupted ds hc a hle

end Literals

/-! ### Names and operators -/

theorem isIdentPart_backslash : Text.isIdentPart '\\' = false := by
  decide +kernel

/-- What is no longer than the text before the place stands there. -/
theorem exists_of_append_eq {c : Char} {word rest : List Char} (h : a ++ c :: b = word ++ rest)
    (hlength : word.length ≤ a.length) : ∃ more, a = word ++ more ∧ rest = more ++ c :: b := by
  rcases List.append_eq_append_iff.1 h with ⟨more, rfl, hrest⟩ | hmore
  · rw [List.length_append] at hlength
    obtain rfl : more = [] := List.eq_nil_of_length_eq_zero (by omega)
    exact ⟨[], by simp, hrest.symm⟩
  · exact hmore

private theorem wordFront_interrupted (v : Version) (first : Char) {c : Char} (hc : c ≠ '\n')
    (h : (wordFront v first (a ++ c :: b)).more ≤ a.length) :
    wordFront v first (a ++ '\\' :: ds) = wordFront v first (a ++ c :: b) := by
  rcases wordFront_cases v first (a ++ c :: b)
    with ⟨letters, quote, marks, after, heq, hletters, hmarks⟩
    | ⟨letters, rest, heq, hletters, hends, hnone⟩
  · -- The quote is read with the marks, so it stands before the place.
    rw [heq, wordFront_literal hletters hmarks] at h
    have hbefore : (letters ++ [quote]).length ≤ a.length := by
      simp only [stringFront, Front.more] at h
      rw [List.length_append, List.length_singleton]
      omega
    obtain ⟨more, rfl, rfl⟩ : ∃ more, a = (letters ++ [quote]) ++ more ∧ after = more ++ c :: b :=
      exists_of_append_eq (heq.trans (by simp)) hbefore
    rw [heq, List.append_assoc, List.append_assoc, List.singleton_append,
      wordFront_literal hletters hmarks, wordFront_literal hletters hmarks]
    refine stringFront_interrupted ds (ne_backslash_of_isQuote hmarks.isQuote) hc
      (Nat.le_trans h ?_)
    rw [List.length_append, List.length_append, List.length_singleton]
  · rw [heq, wordFront_name hletters hends hnone] at h
    obtain ⟨more, rfl, rfl⟩ := exists_of_append_eq heq h
    rw [heq, List.append_assoc, wordFront_name hletters hends hnone]
    cases more with
    | nil =>
      refine wordFront_name hletters ?_ ?_
      · rintro d ⟨⟩
        exact isIdentPart_backslash
      · rintro quote ⟨⟩ marks hmarks
        exact ne_backslash_of_isQuote hmarks.isQuote rfl
    | cons d more => exact wordFront_name hletters hends hnone

/-- The spelling of an operator ends before a backslash. -/
theorem isPrefixOf_backslash {spelling : List Char} (h : '\\' ∉ spelling) (cs : List Char) :
    spelling.isPrefixOf (cs ++ '\\' :: ds) = spelling.isPrefixOf cs := by
  induction spelling generalizing cs with
  | nil => simp
  | cons s spelling ih =>
    rw [List.mem_cons, not_or] at h
    cases cs with
    | nil =>
      have hs : (s == '\\') = false := by simpa using Ne.symm h.1
      rw [List.nil_append, List.isPrefixOf_cons_cons, hs]
      rfl
    | cons c cs =>
      rw [List.cons_append, List.isPrefixOf_cons_cons, List.isPrefixOf_cons_cons, ih h.2]

theorem operators_no_backslash : ∀ entry ∈ operators, '\\' ∉ entry.1 := by
  decide

/-- A search finds the same with a test that fewer pass, if what is found passes it. -/
theorem find?_eq_of_imp {α : Type} {p q : α → Bool} {l : List α}
    (himp : ∀ x ∈ l, q x = true → p x = true) (hfound : ∀ x ∈ l.find? p, q x = true) :
    l.find? q = l.find? p := by
  induction l with
  | nil => rfl
  | cons x l ih =>
    obtain ⟨hx, himp⟩ := List.forall_mem_cons.1 himp
    by_cases hp : p x = true
    · rw [List.find?_cons_of_pos hp] at hfound ⊢
      exact List.find?_cons_of_pos (hfound x rfl)
    · rw [List.find?_cons_of_neg hp] at hfound ⊢
      rw [List.find?_cons_of_neg (mt hx hp)]
      exact ih himp hfound

private theorem operatorFront_interrupted (v : Version) (first : Char)
    (h : (operatorFront v first (a ++ b)).more ≤ a.length) :
    operatorFront v first (a ++ '\\' :: ds) = operatorFront v first (a ++ b) := by
  have hbefore : ∀ entry ∈ operators,
      entry.1.isPrefixOf (first :: (a ++ '\\' :: ds)) = true ↔ entry.1 <+: first :: a := by
    intro entry hentry
    rw [← List.isPrefixOf_iff_prefix]
    exact Bool.eq_iff_iff.1
      (isPrefixOf_backslash ds (operators_no_backslash entry hentry) (first :: a))
  have hsame : operators.find? (fun entry =>
      entry.1.isPrefixOf (first :: (a ++ '\\' :: ds)) && operatorExists v entry)
        = operators.find? fun entry =>
          entry.1.isPrefixOf (first :: (a ++ b)) && operatorExists v entry := by
    refine find?_eq_of_imp (fun entry hentry hfits => ?_) fun entry hfind => ?_
    -- What fits in front of a backslash stands before it, so it fits in front of all.
    · obtain ⟨hfits, hexists⟩ := Bool.and_eq_true_iff.1 hfits
      have hprefix := ((hbefore entry hentry).1 hfits).trans (List.prefix_append (first :: a) b)
      exact Bool.and_eq_true_iff.2 ⟨List.isPrefixOf_iff_prefix.2 hprefix, hexists⟩
    -- The spelling that is found is not longer than what stands before the place.
    · have hpasses : (entry.1.isPrefixOf (first :: (a ++ b)) && operatorExists v entry) = true :=
        List.find?_some (p := fun entry =>
          entry.1.isPrefixOf (first :: (a ++ b)) && operatorExists v entry) hfind
      obtain ⟨hfits, hexists⟩ := Bool.and_eq_true_iff.1 hpasses
      rw [List.isPrefixOf_iff_prefix] at hfits
      rw [operatorFront, hfind] at h
      have hmore : entry.1.length - 1 ≤ a.length := h
      have hprefix := List.prefix_of_prefix_length_le hfits (List.prefix_append (first :: a) b)
        (by rw [List.length_cons]; omega)
      have hmem := List.mem_of_find?_eq_some hfind
      exact Bool.and_eq_true_iff.2 ⟨(hbefore entry hmem).2 hprefix, hexists⟩
  rw [operatorFront, operatorFront, hsame]

/-! ### The front of a text -/

/-- A word that ends before some place, or at it. -/
private theorem wordsFront_interrupted (v : Version) (depth : Nat) {first c : Char}
    (hstarts : startsWord first = true) (hc : c ≠ '\n')
    (h : (front v depth first (a ++ c :: b)).more ≤ a.length) :
    front v depth first (a ++ '\\' :: ds) = front v depth first (a ++ c :: b) := by
  rw [front_of_startsWord hstarts] at h
  rw [front_of_startsWord hstarts, front_of_startsWord hstarts]
  rw [beginsNumber_interrupted ds v fun hpoint => by
    rwa [hpoint, Bool.or_true, if_pos (by rfl)] at h]
  split
  · rename_i hnumber
    rw [if_pos hnumber] at h
    exact numberFront_interrupted ds v first h
  · rename_i hnumber
    rw [if_neg hnumber] at h
    split
    · rename_i hquote
      rw [if_pos hquote] at h
      exact stringFront_interrupted ds (ne_backslash_of_isQuote hquote) hc
        (Nat.le_trans h (Nat.le_add_left _ _))
    · rename_i hquote
      rw [if_neg hquote] at h
      split
      · rename_i hident
        rw [if_pos hident] at h
        exact wordFront_interrupted ds v first hc h
      · rename_i hident
        rw [if_neg hident] at h
        exact operatorFront_interrupted ds v first h

/-- A count that does not go on to a place ends before it. -/
theorem countWhile_lt_of_append {p : Char → Bool} {c : Char} (hc : p c = true)
    (h : countWhile p (a ++ c :: b) ≤ a.length) : countWhile p a < a.length := by
  simp only [countWhile] at h ⊢
  induction a with
  | nil =>
    rw [List.nil_append, List.takeWhile_cons_of_pos hc] at h
    exact absurd h (Nat.not_succ_le_zero _)
  | cons x a ih =>
    simp only [List.cons_append, List.takeWhile_cons, List.length_cons] at h ⊢
    split at h
    · rename_i hx
      rw [if_pos hx]
      exact Nat.succ_lt_succ (ih (Nat.le_of_succ_le_succ h))
    · rename_i hx
      rw [if_neg hx]
      exact Nat.succ_pos _

/-- A word that ends before some place, or at it, is the same in front of a backslash. So is what is
    passed over, if no line feed stands at the place. -/
theorem front_interrupted (v : Version) (depth : Nat) (first : Char) {c : Char} (hc : c ≠ '\n')
    (h : (front v depth first (a ++ c :: b)).more ≤ a.length) :
    front v depth first (a ++ '\\' :: ds) = front v depth first (a ++ c :: b) := by
  by_cases hstarts : startsWord first = true
  · exact wordsFront_interrupted ds v depth hstarts hc h
  · rcases not_startsWord hstarts with hmargin | rfl | rfl | rfl
    · rw [front_margin hmargin, front_margin hmargin]
    · rfl
    · have hcount := countWhile_lt_of_append (p := (· != '\n')) (by simpa using hc) h
      show Front.skipped _ = Front.skipped _
      rw [countWhile_append _ hcount, countWhile_append _ hcount]
    · rcases continues_or_not (a ++ c :: b) with ⟨ending, rest, heq, hends⟩ | ⟨hfeed, hreturn⟩
      · -- The end of the line that is hidden stands before the place.
        rw [heq, front_continues hends] at h
        obtain ⟨more, rfl, rfl⟩ := exists_of_append_eq heq h
        have hends' : Continues ending (more ++ '\\' :: ds) := by
          refine hends.imp_right (Or.imp_right (And.imp_right fun hrest => ?_))
          cases more with
          | nil =>
            intro heq
            cases heq
          | cons d more => exact hrest
        rw [heq, front_continues hends, List.append_assoc, front_continues hends']
      · have hhead : ∀ {d : Char}, d ≠ '\\' → (a ++ c :: b).head? ≠ some d →
            (a ++ '\\' :: ds).head? ≠ some d := by
          intro d hd hne
          cases a with
          | nil => exact fun heq => hd (Option.some.inj heq).symm
          | cons x a => exact hne
        rw [front_backslash hfeed hreturn,
          front_backslash (hhead (by decide) hfeed) (hhead (by decide) hreturn)]

end Lexer

end PyAtlas
