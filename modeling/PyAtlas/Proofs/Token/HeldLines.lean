import PyAtlas.Proofs.Token.Indentation
import PyAtlas.Proofs.Token.Steps

/-!
# Lines that a backslash holds open

Blank lines, and lines with only a comment, are passed over before the next line begins. A line
that begins with a backslash is not passed over, whatever follows. So where the backslash stands at
the end of its line and no word comes before the next line feed, that line feed ends a line on which
there is no word.

`HeldLine` says of a text that its last line is such a one. The lexer reads a text like that without
a token, and no other text in front of a line feed.

## Key definitions
- `WordlessLines`: lines without words, each with its line feed.
- `HeldOpen`, `HeldLine`: a line that a backslash holds open and on which there is no word.

## Key results
- `Lexer.exists_wordlessLines`: only lines without words are passed over before a line begins.
- `Lexer.Steps.heldLine`: a line that is read without a token is held open.
- `Lexer.run_heldLine`: a line that is held open is read without a token.
-/

namespace PyAtlas

/-! ### Lines that a backslash holds open -/

theorem Continues.append {ending text : List Char} (h : Continues ending (text ++ ['\n']))
    (rest : List Char) : Continues ending (text ++ rest) := by
  cases text with
  | cons c text => exact h.congr rfl
  | nil => exact h.imp_right (Or.imp_right fun h => absurd rfl h.2)

/-- The text up to a line feed is held open: it begins, behind its margin, with a backslash at the
    end of its line, and so do the lines that follow, up to one without words. -/
inductive HeldOpen : List Char → Prop
  | margin {c : Char} {text : List Char} :
    Lexer.isMargin c = true → HeldOpen text → HeldOpen (c :: text)
  | last {ending line : List Char} :
    Continues ending (line ++ ['\n']) → Wordless line → HeldOpen ('\\' :: (ending ++ line))
  | more {ending text : List Char} :
    Continues ending (text ++ ['\n']) → HeldOpen text → HeldOpen ('\\' :: (ending ++ text))

theorem HeldOpen.margins {margin text : List Char} (hmargin : ∀ c ∈ margin, Lexer.isMargin c = true)
    (h : HeldOpen text) : HeldOpen (margin ++ text) := by
  induction margin with
  | nil => exact h
  | cons c margin ih =>
    obtain ⟨hc, hmargin⟩ := List.forall_mem_cons.1 hmargin
    exact .margin hc (ih hmargin)

theorem HeldOpen.exists_margin {text : List Char} (h : HeldOpen text) :
    ∃ margin tail, text = margin ++ '\\' :: tail ∧ (∀ c ∈ margin, Lexer.isMargin c = true)
      ∧ HeldOpen ('\\' :: tail) := by
  induction h with
  | @margin c text hc _ ih =>
    obtain ⟨margin, tail, rfl, hmargin, htail⟩ := ih
    exact ⟨c :: margin, tail, rfl, List.forall_mem_cons.2 ⟨hc, hmargin⟩, htail⟩
  | last hends hline => exact ⟨[], _, rfl, List.forall_mem_nil _, .last hends hline⟩
  | more hends h _ => exact ⟨[], _, rfl, List.forall_mem_nil _, .more hends h⟩

/-- Lines without words, each with its line feed. -/
inductive WordlessLines : List Char → Prop
  | nil : WordlessLines []
  | cons {line text : List Char} :
    Wordless line → WordlessLines text → WordlessLines (line ++ '\n' :: text)

/-- The last line of the text is held open, and all lines before it are without words. -/
def HeldLine (text : List Char) : Prop :=
  ∃ blank line, text = blank ++ line ∧ WordlessLines blank ∧ HeldOpen line

/-! ### Lines without words -/

section Wordless

variable {c : Char} {text : List Char}

theorem wordless_nil : Wordless [] :=
  ⟨[], [], rfl, nofun, .inl rfl⟩

theorem Wordless.margin (hc : Lexer.isMargin c = true) (h : Wordless text) :
    Wordless (c :: text) := by
  obtain ⟨margin, comment, rfl, hmargin, hcomment⟩ := h.split
  exact ⟨c :: margin, comment, rfl, List.forall_mem_cons.2 ⟨hc, hmargin⟩, hcomment⟩

theorem wordless_comment (h : '\n' ∉ text) : Wordless ('#' :: text) :=
  ⟨[], _, rfl, nofun, .inr ⟨text, rfl, h⟩⟩

theorem Wordless.newline_not_mem (h : Wordless text) : '\n' ∉ text := by
  obtain ⟨margin, comment, rfl, hmargin, rfl | ⟨text, rfl, htext⟩⟩ := h.split
  all_goals
    intro hmem
    rcases List.mem_append.1 hmem with hmem | hmem
    · exact Bool.false_ne_true (hmargin _ hmem)
  · cases hmem
  · rcases List.mem_cons.1 hmem with heq | hmem
    · cases heq
    · exact htext hmem

/-- A line without words begins with its margin, its comment or its end. -/
theorem Wordless.exists_first {rest : List Char} (h : Wordless text)
    (hrest : rest.head? = some '\n') : ∃ first cs, text ++ rest = first :: cs
      ∧ (Lexer.isMargin first = true ∨ first = '#' ∨ first = '\n') := by
  obtain ⟨margin, comment, rfl, hmargin, hcomment⟩ := h.split
  cases margin with
  | cons c margin => exact ⟨c, _, rfl, .inl (hmargin c List.mem_cons_self)⟩
  | nil =>
    rcases hcomment with rfl | ⟨text, rfl, -⟩
    · obtain ⟨cs, rfl⟩ := List.head?_eq_some_iff.1 hrest
      exact ⟨'\n', cs, rfl, .inr (.inr rfl)⟩
    · exact ⟨'#', _, rfl, .inr (.inl rfl)⟩

end Wordless

/-- What is passed over inside a line: no text that begins with a line feed. -/
theorem head?_ne_newline {text : List Char} (h : Wordless text ∨ HeldOpen text) :
    text.head? ≠ some '\n' := by
  rcases h with h | h
  · intro heq
    exact h.newline_not_mem (List.mem_of_head? heq)
  · cases h with
    | margin hc _ =>
      rintro ⟨⟩
      cases hc
    | last _ _ => nofun
    | more _ _ => nofun

namespace Lexer

variable {v : Version} {s s' : State} {ts : List Token}

/-! ### Inside a line -/

/-- What is passed over inside a line, up to the line feed that ends it. -/
theorem Steps.held (h : Steps v s ts s') (hts : ts = []) (hfresh : s.fresh = false)
    (hdepth : s.layout.depth = 0) (hnext : s'.input.rest.head? = some '\n') :
    ∃ text, s.input.rest = text ++ s'.input.rest
      ∧ s'.input.offset = s.input.offset + Text.byteSize text
      ∧ (Wordless text ∨ HeldOpen text) := by
  -- Induction along the steps. None of them yields a token, so each passes over a margin, a comment or
  -- a hidden end of a line, which is put in front of what the others pass over.
  induction h with
  | refl s => exact ⟨[], rfl, rfl, .inl wordless_nil⟩
  | @step s s₁ s' ts ts' hstep _ ih =>
    obtain ⟨hnone, hnone'⟩ := List.append_eq_nil_iff.1 hts
    cases hstep with
    | opened l i => cases hfresh
    | token _ _ => cases hnone
    | @skipped l i first cs more hrest hfront =>
      obtain ⟨text, hsplit, hoffset, htext⟩ := ih hnone' rfl hdepth hnext
      have hmore : i.rest = i.rest.take (more + 1) ++ text ++ s'.input.rest := by
        rw [List.append_assoc, ← hsplit]
        exact (List.take_append_drop _ _).symm
      refine ⟨i.rest.take (more + 1) ++ text, hmore, ?_, ?_⟩
      · rw [hoffset, Text.byteSize_append, ← Nat.add_assoc]
        rfl
      have hbehind : cs.drop more = text ++ s'.input.rest := by
        rw [← hsplit]
        show _ = i.rest.drop (more + 1)
        rw [hrest, List.drop_succ_cons]
      rw [hrest, List.take_succ_cons, List.cons_append]
      rw [show l.depth = 0 from hdepth] at hfront
      rcases front_eq_skipped hfront with ⟨hmargin, rfl⟩ | ⟨-, hless, -⟩ | ⟨rfl, rfl⟩
        | ⟨rfl, ending, rest, rfl, hends, rfl⟩
      · exact htext.imp (.margin hmargin) (.margin hmargin)
      · exact absurd hless (Nat.lt_irrefl 0)
      · -- A comment goes on to the line feed.
        have hnil : text = [] := by
          cases text with
          | nil => rfl
          | cons c text =>
            have hc := not_of_drop_countWhile hbehind
            simp only [bne_eq_false_iff_eq] at hc
            exact absurd (congrArg some hc) (head?_ne_newline htext)
        rw [hnil, List.append_nil]
        exact .inl (wordless_comment (fits_comment 0 true cs))
      · rw [List.take_left]
        rw [List.drop_left] at hbehind
        have hends' : Continues ending (text ++ ['\n']) := by
          refine hends.congr ?_
          rw [hbehind, List.head?_append, List.head?_append, hnext]
          rfl
        rcases htext with htext | htext
        · exact .inr (.last hends' htext)
        · exact .inr (.more hends' htext)

/-! ### The start of a line -/

/-- Lines without words are passed over. -/
theorem skipBlankLines_wordlessLines {blank : List Char} (h : WordlessLines blank) (offset : Nat)
    (cs : List Char) : skipBlankLines ⟨offset, blank ++ cs⟩
      = skipBlankLines ⟨offset + Text.byteSize blank, cs⟩ := by
  induction h generalizing offset with
  | nil => rfl
  | @cons line text hline _ ih =>
    rw [List.append_assoc, List.cons_append, skipBlankLines_wordless hline, ih, Nat.add_assoc,
      ← Text.byteSize_append, List.append_assoc, List.singleton_append]

/-- Nothing but lines without words is passed over where a line follows. -/
theorem exists_wordlessLines (i : Input) (h : (skipBlankLines i).rest ≠ []) :
    ∃ blank, WordlessLines blank ∧ i.rest = blank ++ (skipBlankLines i).rest
      ∧ (skipBlankLines i).offset = i.offset + Text.byteSize blank := by
  -- Some characters that are a line, and what is passed over behind it.
  have hline : ∀ {i : Input} (line : List Char) {n : Nat} {j : Input},
      i.rest.take n = line ++ ['\n'] → Wordless line → (∃ blank, WordlessLines blank
        ∧ (i.advance n).rest = blank ++ j.rest
        ∧ j.offset = (i.advance n).offset + Text.byteSize blank) →
      ∃ blank, WordlessLines blank ∧ i.rest = blank ++ j.rest
        ∧ j.offset = i.offset + Text.byteSize blank := by
    rintro i line n j htake hwordless ⟨blank, hblank, hrest, hoffset⟩
    refine ⟨line ++ '\n' :: blank, .cons hwordless hblank, ?_, ?_⟩
    · rw [← List.take_append_drop n i.rest, htake]
      show _ ++ (i.advance n).rest = _
      rw [hrest]
      simp
    · rw [hoffset, List.append_cons, Text.byteSize_append, ← htake, ← Nat.add_assoc]
      rfl
  fun_induction skipBlankLines i with
  | case1 i n cs hrest ih =>
    refine hline (i.rest.take n) ?_ ⟨_, [], (List.append_nil _).symm, ?_, .inl rfl⟩ (ih h)
    · rw [List.take_add, hrest]
      rfl
    · exact fun c => of_mem_take_countWhile
  | case2 i n cs hrest ih =>
    have hsum : n + 1 + countWhile (· != '\n') cs + 1
        = n + (countWhile (· != '\n') cs + 1 + 1) := by omega
    -- A comment at the end of the text would be all that is left.
    have hend : cs.drop (countWhile (· != '\n') cs) ≠ [] := by
      intro hnil
      have hrest' : (i.advance (n + 1 + countWhile (· != '\n') cs + 1)).rest = [] := by
        simp [Input.advance, hsum, ← List.drop_drop, hrest, hnil]
      have hlength := length_rest_skipBlankLines_le
        (i.advance (n + 1 + countWhile (· != '\n') cs + 1))
      rw [hrest'] at hlength
      exact h (List.eq_nil_of_length_eq_zero (Nat.le_zero.1 hlength))
    obtain ⟨c, rest, hc⟩ := List.exists_cons_of_ne_nil hend
    have hfeed : c = '\n' := by simpa using not_of_drop_countWhile hc
    refine hline (i.rest.take n ++ '#' :: cs.take (countWhile (· != '\n') cs)) ?_
      ⟨_, _, rfl, fun c => of_mem_take_countWhile, .inr ⟨_, rfl, fits_comment 0 true cs⟩⟩ (ih h)
    rw [hsum, List.take_add, hrest, List.take_succ_cons, List.take_add, hc, hfeed]
    simp
  | case3 i n hother hno => exact ⟨[], .nil, rfl, rfl⟩

section Margin

variable {margin : List Char} {d : Char}

theorem takeWhile_margin (hmargin : ∀ c ∈ margin, isMargin c = true) (hd : isMargin d = false)
    (cs : List Char) : (margin ++ d :: cs).takeWhile isMargin = margin := by
  rw [List.takeWhile_append_of_pos hmargin, List.takeWhile_cons_of_neg (by simp [hd]),
    List.append_nil]

theorem skipWhile_margin (hmargin : ∀ c ∈ margin, isMargin c = true) (hd : isMargin d = false)
    (offset : Nat) (cs : List Char) : Input.skipWhile ⟨offset, margin ++ d :: cs⟩ isMargin
      = ⟨offset + Text.byteSize margin, d :: cs⟩ := by
  rw [Input.skipWhile, takeWhile_margin hmargin hd, Input.advance_append]

/-- A line that is not blank is not passed over. -/
theorem skipBlankLines_margin (hmargin : ∀ c ∈ margin, isMargin c = true)
    (hd : isMargin d = false) (hfeed : d ≠ '\n') (hcomment : d ≠ '#') (offset : Nat)
    (cs : List Char) :
    skipBlankLines ⟨offset, margin ++ d :: cs⟩ = ⟨offset, margin ++ d :: cs⟩ := by
  have hdrop : (margin ++ d :: cs).drop (countWhile isMargin (margin ++ d :: cs)) = d :: cs := by
    rw [countWhile, takeWhile_margin hmargin hd, List.drop_left]
  refine skipBlankLines_of_ne ?_ ?_
  all_goals
    intro ds heq
    rw [hdrop] at heq
    obtain ⟨rfl, -⟩ := List.cons.inj heq
    contradiction

/-- A line that begins with a backslash has no indentation. -/
theorem openLine_backslash (l : Layout) (hmargin : ∀ c ∈ margin, isMargin c = true)
    (offset : Nat) (cs : List Char) : openLine l ⟨offset, margin ++ '\\' :: cs⟩
      = ([], l, ⟨offset + Text.byteSize margin, '\\' :: cs⟩) := by
  have hbody := skipWhile_margin (d := '\\') hmargin rfl offset cs
  simp [openLine, hbody]

end Margin

/-- A line begins with its margin. -/
theorem rest_eq_margin (i : Input) :
    i.rest = i.rest.take (countWhile isMargin i.rest) ++ (i.skipWhile isMargin).rest :=
  (List.take_append_drop _ _).symm

/-- Where a line begins and nothing is read before a line feed, the line is held open. -/
theorem Steps.heldLine {l : Layout} {i : Input} (h : Steps v ⟨l, true, i⟩ [] s')
    (hdepth : l.depth = 0) (hfresh : s'.fresh = false) (hnext : s'.input.rest.head? = some '\n') :
    ∃ text, i.rest = text ++ s'.input.rest
      ∧ s'.input.offset = i.offset + Text.byteSize text ∧ HeldLine text := by
  generalize hnone : ([] : List Token) = ts at h
  generalize hs : (⟨l, true, i⟩ : State) = s at h
  cases h with
  | refl s =>
    rw [← hs] at hfresh
    cases hfresh
  | @step _ s₁ _ ts ts' hstep hsteps =>
    obtain ⟨hopened, hlater⟩ := List.append_eq_nil_iff.1 hnone.symm
    cases hstep with
    | skipped _ _ => cases hs
    | token _ _ => cases hs
    | opened l' i' =>
      cases hs
      rw [openLine_layout_of_nil hopened, openLine_input] at hsteps
      obtain ⟨text, hrest, hoffset, htext⟩ := hsteps.held hlater rfl hdepth hnext
      dsimp only at hrest hoffset
      have hmargin := rest_eq_margin (skipBlankLines i)
      rw [hrest] at hmargin
      have hne : (skipBlankLines i).rest ≠ [] := by
        intro hnil
        rw [hnil] at hmargin
        simp [List.append_eq_nil_iff.1 (List.append_eq_nil_iff.1 hmargin.symm).2] at hnext
      obtain ⟨blank, hblank, hlines, hstart⟩ := exists_wordlessLines i hne
      -- No line without words is left, so the line begins with a backslash.
      have hheld : HeldOpen text := by
        refine htext.resolve_left fun hwordless => ?_
        obtain ⟨first, cs, hfirst, hblank⟩ := hwordless.exists_first hnext
        rw [hfirst] at hrest
        obtain ⟨hfeed, hcomment⟩ := not_blank_skipBlankLines i hrest
        rcases hblank with hblank | rfl | rfl
        · rw [not_of_drop_countWhile hrest] at hblank
          cases hblank
        · exact hcomment rfl
        · exact hfeed rfl
      refine ⟨blank ++ ((skipBlankLines i).rest.take (countWhile isMargin (skipBlankLines i).rest)
        ++ text), ?_, ?_, blank, _, rfl, hblank, hheld.margins fun c => of_mem_take_countWhile⟩
      · rw [hlines, List.append_assoc, List.append_assoc, ← hmargin]
      · rw [hoffset, Text.byteSize_append, Text.byteSize_append, ← Nat.add_assoc, ← Nat.add_assoc,
          ← hstart]
        rfl

/-! ### Reading what is held open -/

section Reading

variable {text rest : List Char}

/-- What is passed over at the front of a text. -/
theorem run_skipped {l : Layout} {passed : List Char} {first : Char}
    (h : front v l.depth first (passed ++ rest) = .skipped passed.length) (offset : Nat) :
    run v l false ⟨offset, first :: (passed ++ rest)⟩
      = run v l false ⟨offset + Text.byteSize (first :: passed), rest⟩ := by
  rw [run_cons v l rfl, h]
  exact congrArg (run v l false) (Input.advance_append offset (first :: passed) rest)

theorem run_margin {c : Char} (hc : isMargin c = true) (l : Layout) (offset : Nat) :
    run v l false ⟨offset, c :: rest⟩ = run v l false ⟨offset + Text.byteSize [c], rest⟩ := by
  have hfront : front v l.depth c ([] ++ rest) = .skipped 0 := by
    exact front_margin hc v l.depth ([] ++ rest)
  exact run_skipped hfront offset

/-- A line without words is passed over up to its line feed. -/
theorem run_wordlessEnd (h : Wordless text) (hrest : ∀ c ∈ rest.head?, c = '\n') (l : Layout)
    (offset : Nat) :
    run v l false ⟨offset, text ++ rest⟩ = run v l false ⟨offset + Text.byteSize text, rest⟩ := by
  obtain ⟨margin, comment, rfl, hmargin, hcomment⟩ := h.split
  clear h
  induction margin generalizing offset with
  | cons c margin ih =>
    obtain ⟨hc, hmargin⟩ := List.forall_mem_cons.1 hmargin
    rw [List.cons_append, List.cons_append, run_margin hc, ih _ hmargin, Nat.add_assoc,
      ← Text.byteSize_append, List.singleton_append]
  | nil =>
    rcases hcomment with rfl | ⟨text, rfl, htext⟩
    · rfl
    · have hcount : countWhile (· != '\n') (text ++ rest) = text.length := by
        have hne : ∀ c ∈ text, (c != '\n') = true :=
          fun c hc => bne_iff_ne.2 fun heq => htext (heq ▸ hc)
        rw [countWhile, List.takeWhile_append_of_pos hne]
        cases rest with
        | nil => simp
        | cons c rest => simp [hrest c rfl]
      refine run_skipped ?_ offset
      rw [← hcount]
      rfl

/-- What a backslash holds open is passed over as well. -/
theorem run_heldOpen (h : HeldOpen text) (hrest : ∀ c ∈ rest.head?, c = '\n') (l : Layout)
    (offset : Nat) :
    run v l false ⟨offset, text ++ rest⟩ = run v l false ⟨offset + Text.byteSize text, rest⟩ := by
  have hbackslash : ∀ {ending text : List Char} (offset : Nat), Continues ending (text ++ ['\n']) →
      run v l false ⟨offset, '\\' :: (ending ++ text) ++ rest⟩
        = run v l false ⟨offset + Text.byteSize ('\\' :: ending), text ++ rest⟩ := by
    intro ending text offset hends
    rw [List.cons_append, List.append_assoc]
    exact run_skipped (front_continues (hends.append rest) l.depth) offset
  induction h generalizing offset with
  | margin hc _ ih =>
    rw [List.cons_append, run_margin hc, ih, Nat.add_assoc, ← Text.byteSize_append,
      List.singleton_append]
  | last hends hline =>
    rw [hbackslash offset hends, run_wordlessEnd hline hrest, Nat.add_assoc,
      ← Text.byteSize_append, List.cons_append]
  | more hends _ ih =>
    rw [hbackslash offset hends, ih, Nat.add_assoc, ← Text.byteSize_append, List.cons_append]

/-- Where a line begins, one that is held open is passed over up to its line feed. -/
theorem run_heldLine (h : HeldLine text) (hrest : ∀ c ∈ rest.head?, c = '\n') (l : Layout)
    (offset : Nat) :
    run v l true ⟨offset, text ++ rest⟩ = run v l false ⟨offset + Text.byteSize text, rest⟩ := by
  obtain ⟨blank, line, rfl, hblank, hline⟩ := h
  obtain ⟨margin, tail, rfl, hmargin, htail⟩ := hline.exists_margin
  rw [run_fresh, List.append_assoc, skipBlankLines_wordlessLines hblank, List.append_assoc,
    List.cons_append, skipBlankLines_margin hmargin rfl (by decide) (by decide),
    openLine_backslash l hmargin, List.nil_append, ← List.cons_append, run_heldOpen htail hrest]
  simp only [Text.byteSize_append, Nat.add_assoc]

end Reading

end Lexer

end PyAtlas
