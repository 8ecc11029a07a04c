import PyAtlas.Proofs.Syntax.Shift
import PyAtlas.Proofs.Token.Front
import PyAtlas.Proofs.Token.Layout

/-!
# Tokens of a text in two parts

Where a text is cut right behind the newline of a line, the lexer has nothing to remember but
the open blocks, and a second part that begins at column zero closes those. So the tokens of
the whole are the tokens of the first part and, moved to their place, the tokens of the second.

The cut may stand behind a line feed only, and only where the lexer takes that line feed for
the end of a line: in brackets, after a backslash or inside a literal it is none. `EndsAt`
says this through the tokens of the first part.

## Key results
- `Lexer.run_extend`: what a line feed leaves behind are the open blocks.
- `Lexer.run_append`: the tokens of the whole, in two parts.
- `Lexer.run_move`: the tokens of a text that begins at another offset.
- `tokenize_append`: both together, for the tokens of two texts.
-/

namespace PyAtlas

namespace Lexer

/-! ### Reading a text that goes on -/

namespace Input

/-- The same input with more text at its end. -/
def extend (i : Input) (bs : List Char) : Input := ⟨i.offset, i.rest ++ bs⟩

/-- The same input `n` bytes later. -/
def move (n : Nat) (i : Input) : Input := ⟨i.offset + n, i.rest⟩

theorem advance_extend {i : Input} (bs : List Char) {n : Nat} (h : n ≤ i.rest.length) :
    (i.extend bs).advance n = (i.advance n).extend bs := by
  simp only [advance, extend]
  rw [List.take_append_of_le_length h, List.drop_append_of_le_length h]

theorem token_extend {i : Input} (bs : List Char) (kind : TokenKind) {n : Nat}
    (h : n ≤ i.rest.length) : (i.extend bs).token kind n = i.token kind n := by
  simp only [token, advance, extend]
  rw [List.take_append_of_le_length h]

theorem advance_move (n : Nat) (i : Input) (m : Nat) :
    (i.move n).advance m = (i.advance m).move n := by
  simp only [advance, move, Nat.add_right_comm]

theorem token_move (n : Nat) (i : Input) (kind : TokenKind) (m : Nat) :
    (i.move n).token kind m = (i.token kind m).shift n := by
  simp only [token, advance, move, Token.shift, Span.shift, Nat.add_right_comm]

end Input

/-! ### One step of the lexer -/

theorem run_fresh (v : Version) (l : Layout) (i : Input) :
    run v l true i = (openLine l (skipBlankLines i)).1
      ++ run v (openLine l (skipBlankLines i)).2.1 false
        (openLine l (skipBlankLines i)).2.2 := by
  rw [run, if_pos rfl]

theorem run_cons (v : Version) (l : Layout) {i : Input} {first : Char} {cs : List Char}
    (h : i.rest = first :: cs) :
    run v l false i = match front v l.depth first cs with
      | .skipped more => run v l false (i.advance (more + 1))
      | .token kind more =>
        i.token kind (more + 1)
          :: run v (l.after kind) (kind == .newline) (i.advance (more + 1)) := by
  rw [run, if_neg Bool.false_ne_true]
  split
  · rename_i heq
    rw [h] at heq
    cases heq
  · rename_i heq
    rw [h] at heq
    cases heq
    rfl

theorem run_nil (v : Version) (l : Layout) {i : Input} (h : i.rest = []) :
    run v l false i = finish l i.offset := by
  rw [run, if_neg Bool.false_ne_true]
  split
  · rfl
  · rename_i heq
    rw [h] at heq
    cases heq

/-! ### Lines before the cut -/

theorem skipBlankLines_newline {i : Input} {cs : List Char}
    (h : i.rest.drop (countWhile isMargin i.rest) = '\n' :: cs) :
    skipBlankLines i = skipBlankLines (i.advance (countWhile isMargin i.rest + 1)) := by
  rw [skipBlankLines]
  split
  · rfl
  · rename_i heq
    rw [h] at heq
    cases heq
  · rename_i hno _
    exact absurd h (hno cs)

theorem skipBlankLines_comment {i : Input} {cs : List Char}
    (h : i.rest.drop (countWhile isMargin i.rest) = '#' :: cs) :
    skipBlankLines i = skipBlankLines
      (i.advance (countWhile isMargin i.rest + 1 + countWhile (· != '\n') cs + 1)) := by
  rw [skipBlankLines]
  split
  · rename_i heq
    rw [h] at heq
    cases heq
  · rename_i heq
    rw [h] at heq
    cases heq
    rfl
  · rename_i hno
    exact absurd h (hno cs)

theorem skipBlankLines_of_ne {i : Input}
    (hline : ∀ cs, i.rest.drop (countWhile isMargin i.rest) ≠ '\n' :: cs)
    (hcomment : ∀ cs, i.rest.drop (countWhile isMargin i.rest) ≠ '#' :: cs) :
    skipBlankLines i = i := by
  rw [skipBlankLines]
  split
  · rename_i heq
    exact absurd heq (hline _)
  · rename_i heq
    exact absurd heq (hcomment _)
  · rfl

@[simp] theorem skipBlankLines_nil (offset : Nat) :
    skipBlankLines ⟨offset, []⟩ = ⟨offset, []⟩ :=
  skipBlankLines_of_ne (fun _ h => by cases h) (fun _ h => by cases h)

/-- A text that ends with a line feed, after some of its characters. -/
theorem Ended.advance {i : Input} (h : Ended i.rest) {n : Nat}
    (hn : (i.advance n).rest ≠ []) : Ended (i.advance n).rest := by
  refine h.drop ?_
  have := List.length_pos_iff.2 hn
  rw [Input.length_rest_advance] at this
  omega

private theorem rest_ne_nil_of_skipBlankLines {i : Input} (h : (skipBlankLines i).rest ≠ []) :
    i.rest ≠ [] := by
  obtain ⟨offset, rest⟩ := i
  intro hnil
  simp only at hnil
  subst hnil
  exact h (by rw [skipBlankLines_nil])

private theorem countWhile_extend {i : Input} (bs : List Char) (hi : Ended i.rest) :
    countWhile isMargin (i.extend bs).rest = countWhile isMargin i.rest :=
  countWhile_append bs (hi.countWhile_lt (by decide))

private theorem drop_extend {i : Input} (bs : List Char) (hi : Ended i.rest) :
    (i.extend bs).rest.drop (countWhile isMargin (i.extend bs).rest)
      = i.rest.drop (countWhile isMargin i.rest) ++ bs := by
  rw [countWhile_extend bs hi]
  exact drop_append_lt bs (hi.countWhile_lt (by decide))

/-- Blank lines before the cut, where something else stands before the cut as well. -/
theorem skipBlankLines_extend {i : Input} (bs : List Char) (hi : Ended i.rest)
    (h : (skipBlankLines i).rest ≠ []) :
    skipBlankLines (i.extend bs) = (skipBlankLines i).extend bs
      ∧ Ended (skipBlankLines i).rest := by
  fun_induction skipBlankLines i with
  | case1 i n cs hline ih =>
    -- A margin and a line feed.
    have hn : n + 1 ≤ i.rest.length := hi.countWhile_lt (by decide)
    have hline' := drop_extend bs hi
    rw [hline, List.cons_append] at hline'
    rw [skipBlankLines_newline hline', countWhile_extend bs hi, Input.advance_extend bs hn]
    exact ih (hi.advance (rest_ne_nil_of_skipBlankLines h)) h
  | case2 i n cs hcomment ih =>
    -- A margin and a comment, of which at least the line feed stands before the cut.
    have hcomment' := drop_extend bs hi
    rw [hcomment, List.cons_append] at hcomment'
    have hdrop := hi.drop (hi.countWhile_lt (p := isMargin) (by decide))
    rw [hcomment] at hdrop
    have hcs : Ended cs := hdrop.tail (by decide)
    have hm := hcs.countWhile_lt (p := (· != '\n')) (by decide)
    have hn : n + 1 + countWhile (· != '\n') cs + 1 ≤ i.rest.length := by
      have hlength := congrArg List.length hcomment
      simp only [List.length_drop, List.length_cons] at hlength
      omega
    rw [skipBlankLines_comment hcomment', countWhile_append bs hm, countWhile_extend bs hi,
      Input.advance_extend bs hn]
    exact ih (hi.advance (rest_ne_nil_of_skipBlankLines h)) h
  | case3 i n hline hcomment =>
    -- A line with tokens. Its first character is the same with what follows the cut.
    refine ⟨skipBlankLines_of_ne ?_ ?_, hi⟩
    all_goals
      obtain ⟨c, cs, hc⟩ := List.exists_cons_of_ne_nil
        (hi.drop (hi.countWhile_lt (p := isMargin) (by decide))).ne_nil
      intro cs' heq
      rw [drop_extend bs hi, hc, List.cons_append] at heq
      obtain ⟨rfl, -⟩ := List.cons.inj heq
    · exact hline cs hc
    · exact hcomment cs hc

/-- The margin of a line before the cut. -/
theorem openLine_extend (l : Layout) {i : Input} (bs : List Char) (hi : Ended i.rest) :
    openLine l (i.extend bs)
      = ((openLine l i).1, (openLine l i).2.1, (openLine l i).2.2.extend bs)
      ∧ Ended (openLine l i).2.2.rest := by
  have hn := hi.countWhile_lt (p := isMargin) (by decide)
  have hbody : (i.extend bs).skipWhile isMargin = (i.skipWhile isMargin).extend bs := by
    rw [Input.skipWhile, ← countWhile, countWhile_extend bs hi,
      Input.advance_extend bs (Nat.le_of_lt hn), Input.skipWhile, countWhile]
  have hcolumn : marginColumn (i.extend bs).rest = marginColumn i.rest := by
    rw [marginColumn, Input.extend, takeWhile_append_lt bs hn, marginColumn]
  have hmargin : (i.extend bs).token .indent (countWhile isMargin (i.extend bs).rest)
      = i.token .indent (countWhile isMargin i.rest) := by
    rw [countWhile_extend bs hi, Input.token_extend bs _ (Nat.le_of_lt hn)]
  have hended : Ended (i.skipWhile isMargin).rest := hi.drop hn
  obtain ⟨c, cs, hc⟩ := List.exists_cons_of_ne_nil hended.ne_nil
  have hc' : ((i.skipWhile isMargin).extend bs).rest = c :: (cs ++ bs) := by
    rw [Input.extend, hc, List.cons_append]
  simp only [openLine, hbody, hcolumn, hmargin, hc, hc',
    Input.token_extend bs _ (Nat.zero_le _)]
  split
  · exact ⟨rfl, hended⟩
  · split
    · exact ⟨rfl, hended⟩
    · split
      · exact ⟨rfl, hended⟩
      · exact ⟨rfl, hended⟩

/-! ### Behind the cut -/

/-- A text that begins at the margin and with a line that has tokens. -/
def Flush (bs : List Char) : Prop :=
  ∃ c cs, bs = c :: cs ∧ isMargin c = false ∧ c ≠ '\n' ∧ c ≠ '#' ∧ c ≠ '\\'

/-- A character that is no white space begins at the margin. -/
theorem flush_of_not_isSpace {c : Char} {cs : List Char} (hspace : Text.isSpace c = false)
    (hcomment : c ≠ '#') (hbackslash : c ≠ '\\') : Flush (c :: cs) := by
  refine ⟨c, cs, rfl, ?_, ?_, hcomment, hbackslash⟩
  · cases hmargin : isMargin c with
    | false => rfl
    | true =>
      simp only [isMargin, Bool.or_eq_true, beq_iff_eq] at hmargin
      rcases hmargin with ((rfl | rfl) | rfl) | rfl
      all_goals cases hspace
  · rintro rfl
    cases hspace

/-- Such a line closes all blocks, and nothing is left to remember. -/
theorem run_flush (v : Version) {l : Layout} {bs : List Char} (hbs : Flush bs)
    (hblocks : ∀ column ∈ l.blocks, 0 < column) (hdepth : l.depth = 0)
    (hopen : l.lineOpen = false) (offset : Nat) :
    run v l true ⟨offset, bs⟩
      = l.blocks.map (fun _ => ⟨.dedent, ⟨offset, offset⟩, ""⟩)
        ++ run v .initial false ⟨offset, bs⟩ := by
  obtain ⟨c, cs, rfl, hmargin, hnewline, hcomment, hbackslash⟩ := hbs
  have hcount : countWhile isMargin (c :: cs) = 0 := by simp [countWhile, hmargin]
  have hskip : skipBlankLines ⟨offset, c :: cs⟩ = ⟨offset, c :: cs⟩ := by
    refine skipBlankLines_of_ne ?_ ?_
    all_goals
      intro ds heq
      rw [hcount, List.drop_zero] at heq
      obtain ⟨rfl, -⟩ := List.cons.inj heq
      contradiction
  have hbody : Input.skipWhile ⟨offset, c :: cs⟩ isMargin = ⟨offset, c :: cs⟩ := by
    rw [Input.skipWhile, ← countWhile, hcount]
    rfl
  have hcolumn : marginColumn (c :: cs) = 0 := by simp [marginColumn, hmargin]
  have hpos : ∀ column ∈ l.blocks, decide (0 < column) = true :=
    fun column hc => decide_eq_true (hblocks column hc)
  -- The column of the line is zero, so every block is closed and none is left.
  have hclosed : l.blocks.takeWhile (0 < ·) = l.blocks := by
    simpa using @List.takeWhile_append_of_pos _ (0 < ·) l.blocks [] hpos
  have hleft : l.blocks.dropWhile (0 < ·) = [] := by
    simpa using @List.dropWhile_append_of_pos _ (0 < ·) l.blocks [] hpos
  have hlayout : (⟨[], l.depth, false⟩ : Layout) = .initial := by rw [hdepth]; rfl
  rw [run, if_pos rfl, hskip]
  simp only [openLine, hbody, hcolumn, hclosed, hleft, hopen]
  rw [if_neg (by simpa using hbackslash), if_neg (Nat.not_lt_zero _)]
  simp only [Layout.column, List.headD_nil, Bool.false_and, hlayout]
  rfl

/-- The first token of such a line is none of the layout. -/
theorem run_flush_cons (v : Version) {bs : List Char} (hbs : Flush bs) (offset : Nat) :
    ∃ t ts, run v .initial false ⟨offset, bs⟩ = t :: ts ∧ t.kind.isLayout = false := by
  obtain ⟨c, cs, rfl, hmargin, hnewline, hcomment, hbackslash⟩ := hbs
  rw [run_cons v .initial (i := ⟨offset, c :: cs⟩) rfl]
  rcases front_cases v Layout.initial.depth c cs with hplain | ⟨-, hfirst, -⟩ | ⟨-, hfirst⟩
  · cases hfront : front v Layout.initial.depth c cs with
    | skipped more =>
      rw [hfront] at hplain
      cases hplain
    | token kind more =>
      rw [hfront] at hplain
      exact ⟨_, _, rfl, hplain⟩
  · exact absurd hfirst hnewline
  · rcases hfirst with hfirst | hfirst | hfirst | hfirst
    · rw [hmargin] at hfirst
      cases hfirst
    · exact absurd hfirst hnewline
    · exact absurd hfirst hcomment
    · exact absurd hfirst hbackslash

/-! ### Both sides of the cut -/

/-- Among the tokens is a newline that stands for a character, the last one before `stop`. -/
def EndsAt (stop : Nat) (ts : List Token) : Prop :=
  ∃ t ∈ ts, t.kind = .newline ∧ t.span.start < t.span.stop ∧ t.span.stop = stop

/-- The newline that the lexer adds stands for no character. -/
theorem not_endsAt_finish (l : Layout) (size stop : Nat) : ¬ EndsAt stop (finish l size) := by
  rintro ⟨t, ht, hk, hlt, -⟩
  simp only [finish, List.mem_append, List.mem_map, List.mem_singleton] at ht
  rcases ht with (ht | ⟨column, -, rfl⟩) | rfl
  · split at ht
    · rw [List.mem_singleton.1 ht] at hlt
      exact Nat.lt_irrefl _ hlt
    · cases ht
  · cases hk
  · cases hk

/-- Blocks are opened at columns greater than zero. -/
theorem openLine_blocks_pos {l : Layout} (hblocks : ∀ column ∈ l.blocks, 0 < column)
    (i : Input) : ∀ column ∈ (openLine l i).2.1.blocks, 0 < column := by
  have hleft : ∀ column ∈ l.blocks.dropWhile (marginColumn i.rest < ·), 0 < column :=
    fun column hc => hblocks column (List.dropWhile_subset _ hc)
  simp only [openLine]
  split
  · exact hblocks
  · split
    · exact hblocks
    · split
      · rename_i hlt
        intro column hc
        rcases List.mem_cons.1 hc with rfl | hc
        · exact Nat.lt_of_le_of_lt (Nat.zero_le _) hlt
        · exact hblocks column hc
      · split
        · exact hleft
        · exact hleft

/-- No token that settles an indentation is a newline. -/
theorem openLine_not_newline (l : Layout) (i : Input) :
    ∀ t ∈ (openLine l i).1, t.kind ≠ .newline := by
  have hdedents : ∀ columns : List Nat, ∀ t ∈ columns.map fun _ =>
      (i.skipWhile isMargin).token .dedent 0, t.kind ≠ .newline := by
    intro columns t ht
    obtain ⟨column, -, rfl⟩ := List.mem_map.1 ht
    exact TokenKind.noConfusion
  simp only [openLine]
  split
  · intro t ht
    cases ht
  · split
    · intro t ht
      cases ht
    · split
      · intro t ht
        rw [List.mem_singleton.1 ht]
        exact TokenKind.noConfusion
      · split
        · exact hdedents _
        · intro t ht
          rcases List.mem_append.1 ht with ht | ht
          · exact hdedents _ t ht
          · rw [List.mem_singleton.1 ht]
            exact TokenKind.noConfusion

/-- Without an open bracket a newline token is the line feed at the front. -/
theorem front_eq_newline {v : Version} {depth : Nat} {first : Char} {cs : List Char} {more : Nat}
    (h : front v depth first cs = .token .newline more) :
    first = '\n' ∧ depth = 0 ∧ more = 0 := by
  rcases front_cases v depth first cs with hplain | ⟨heq, hfirst, hdepth⟩ | ⟨⟨_, heq⟩, -⟩
  · rw [h] at hplain
    cases hplain
  · rw [h] at heq
    cases heq
    exact ⟨hfirst, hdepth, rfl⟩
  · rw [h] at heq
    cases heq

theorem EndsAt.of_append {stop : Nat} {ts us : List Token} (h : EndsAt stop (ts ++ us))
    (hts : ∀ t ∈ ts, t.kind ≠ .newline) : EndsAt stop us := by
  obtain ⟨t, ht, hk, hspan⟩ := h
  rcases List.mem_append.1 ht with ht | ht
  · exact absurd hk (hts t ht)
  · exact ⟨t, ht, hk, hspan⟩

/-- Either the first token is that newline, or it is among the others. -/
theorem EndsAt.cons_cases {stop : Nat} {t : Token} {ts : List Token} (h : EndsAt stop (t :: ts)) :
    (t.kind = .newline ∧ t.span.stop = stop) ∨ EndsAt stop ts := by
  obtain ⟨u, hu, hk, hlt, hstop⟩ := h
  rcases List.mem_cons.1 hu with rfl | hu
  · exact .inl ⟨hk, hstop⟩
  · exact .inr ⟨u, hu, hk, hlt, hstop⟩

theorem run_fresh_nil (v : Version) (l : Layout) (offset : Nat) :
    run v l true ⟨offset, []⟩ = finish l offset := by
  have hopen : openLine l ⟨offset, []⟩ = ([], l, ⟨offset, []⟩) := rfl
  rw [run_fresh, skipBlankLines_nil, hopen]
  exact run_nil v l rfl

theorem openLine_input (l : Layout) (i : Input) :
    (openLine l i).2.2 = i.skipWhile isMargin := by
  simp only [openLine]
  split
  · rfl
  · split
    · rfl
    · split
      · rfl
      · split <;> rfl

/-- What stands before a line that ends with a line feed does not matter. -/
private theorem Ended.of_advance {i : Input} {n : Nat} (h : Ended (i.advance n).rest) :
    Ended i.rest := by
  have hrest : i.rest = i.rest.take n ++ (i.advance n).rest :=
    (List.take_append_drop n i.rest).symm
  rw [hrest]
  exact h.of_append _

private theorem Ended.of_skipBlankLines {i : Input} (h : Ended (skipBlankLines i).rest) :
    Ended i.rest := by
  fun_induction skipBlankLines i with
  | case1 i n cs hline ih => exact (ih h).of_advance
  | case2 i n cs hcomment ih => exact (ih h).of_advance
  | case3 i n hline hcomment => exact h

private theorem lt_length_of_advance {i : Input} {n : Nat} (h : Ended (i.advance n).rest) :
    n < i.rest.length := by
  have := List.length_pos_iff.2 h.ne_nil
  rw [Input.length_rest_advance] at this
  omega

/-- A newline token whose character is the last one is the last character. -/
private theorem rest_of_newline {i : Input} {first : Char} {cs : List Char} {kind : TokenKind}
    (hrest : i.rest = first :: cs) (hfirst : first = '\n')
    (hstop : (i.token kind 1).span.stop = i.stop) : i.rest = ['\n'] := by
  rw [hfirst] at hrest
  have hsize : i.offset + Text.byteSize (i.rest.take 1) = i.offset + Text.byteSize i.rest := hstop
  rw [hrest] at hsize
  simp only [List.take_succ_cons, List.take_zero, Text.byteSize_cons, Text.byteSize_nil] at hsize
  have hcs := Text.length_le_byteSize cs
  rw [hrest, List.length_eq_zero_iff.1 (show cs.length = 0 by omega)]

/-- A text whose last newline token stands at its end does end with a line feed. -/
theorem ended_of_endsAt (v : Version) (l : Layout) (fresh : Bool) (i : Input)
    (h : EndsAt i.stop (run v l fresh i)) : Ended i.rest := by
  fun_induction run v l fresh i with
  | case1 l i opened ih =>
    have h' := h.of_append (openLine_not_newline _ _)
    have hended := ih (by rw [stop_openLine, stop_skipBlankLines]; exact h')
    rw [openLine_input] at hended
    exact hended.of_advance.of_skipBlankLines
  | case2 l fresh i hfresh hrest => exact absurd h (not_endsAt_finish _ _ _)
  | case3 l fresh i hfresh first cs hrest more hfront ih =>
    exact (ih (by rw [Input.stop_advance]; exact h)).of_advance
  | case4 l fresh i hfresh first cs hrest kind more hfront ih =>
    rcases h.cons_cases with ⟨hk, hstop⟩ | h
    · obtain rfl : kind = .newline := hk
      obtain ⟨hfirst, -, rfl⟩ := front_eq_newline hfront
      exact ⟨[], rest_of_newline hrest hfirst hstop⟩
    · exact (ih (by rw [Input.stop_advance]; exact h)).of_advance

private theorem rest_extend {i : Input} {first : Char} {cs : List Char} (bs : List Char)
    (h : i.rest = first :: cs) : (i.extend bs).rest = first :: (cs ++ bs) := by
  rw [Input.extend, h, List.cons_append]

/-- A word before the cut, where a line feed stands between the two. -/
private theorem front_extend (v : Version) (depth : Nat) {i : Input} {first : Char}
    {cs : List Char} (bs : List Char) (hi : Ended i.rest) (hrest : i.rest = first :: cs)
    (h : Ended (i.advance ((front v depth first cs).more + 1)).rest) :
    front v depth first (cs ++ bs) = front v depth first cs := by
  have hlt := lt_length_of_advance h
  rw [hrest, List.length_cons] at hlt
  rw [hrest] at hi
  refine front_append v depth first bs (Ended.of_suffix [first] hi ?_) (by omega)
  intro hnil
  rw [hnil, List.length_nil] at hlt
  omega

/-- The newline right before the cut. The open blocks are all that is remembered behind it. -/
private theorem run_extend_newline (v : Version) (bs : List Char) {l : Layout} {i : Input}
    (hdepth : l.depth = 0) (hlast : i.rest = ['\n']) :
    i.token .newline 1 :: run v (l.after .newline) true (i.advance 1)
        = i.token .newline 1 :: finish ⟨l.blocks, 0, false⟩ i.stop
      ∧ run v l false (i.extend bs)
        = i.token .newline 1 :: run v ⟨l.blocks, 0, false⟩ true ⟨i.stop, bs⟩ := by
  have hone : 1 ≤ i.rest.length := by
    rw [hlast]
    exact Nat.le_refl 1
  have hadvance : i.advance 1 = ⟨i.stop, []⟩ := by
    rw [Input.advance, Input.stop, hlast]
    rfl
  have hextend : (i.extend bs).advance 1 = ⟨i.stop, bs⟩ := by
    rw [Input.advance_extend bs hone, hadvance]
    rfl
  have hfront : front v l.depth '\n' ([] ++ bs) = .token .newline 0 := by
    rw [hdepth]
    rfl
  have hafter : l.after .newline = ⟨l.blocks, 0, false⟩ := by
    show (⟨l.blocks, l.depth, false⟩ : Layout) = _
    rw [hdepth]
  refine ⟨?_, ?_⟩
  · rw [hadvance, run_fresh_nil, hafter]
  · rw [run_cons v l (rest_extend bs hlast), hfront]
    show (i.extend bs).token .newline 1 :: run v (l.after .newline) true _ = _
    rw [hextend, hafter, Input.token_extend bs _ hone]

/-- The tokens of a text that goes on behind a newline: those up to the newline, and those of the
    lines behind it with the same blocks open. -/
theorem run_extend (v : Version) (bs : List Char) (l : Layout) (fresh : Bool) (i : Input)
    (hblocks : ∀ column ∈ l.blocks, 0 < column) (h : EndsAt i.stop (run v l fresh i)) :
    ∃ ts blocks, (∀ column ∈ blocks, 0 < column)
      ∧ run v l fresh i = ts ++ finish ⟨blocks, 0, false⟩ i.stop
      ∧ run v l fresh (i.extend bs) = ts ++ run v ⟨blocks, 0, false⟩ true ⟨i.stop, bs⟩ := by
  have hi := ended_of_endsAt v l fresh i h
  fun_induction run v l fresh i with
  | case1 l i opened ih =>
    -- The margin of a line is read, and then the run goes on behind it.
    have h' := h.of_append (openLine_not_newline _ _)
    rw [← stop_skipBlankLines i, ← stop_openLine l (skipBlankLines i)] at h'
    have hopened := ended_of_endsAt v _ false _ h'
    obtain ⟨ts, blocks, hpos, hrun, hextend⟩ := ih (openLine_blocks_pos hblocks _) h' hopened
    rw [openLine_input] at hopened
    obtain ⟨hskip, hended⟩ := skipBlankLines_extend bs hi hopened.of_advance.ne_nil
    obtain ⟨hopen, -⟩ := openLine_extend l bs hended
    rw [stop_openLine, stop_skipBlankLines] at hrun hextend
    refine ⟨opened.1 ++ ts, blocks, hpos, ?_, ?_⟩
    · rw [hrun, List.append_assoc]
    · rw [run_fresh, hskip, hopen, List.append_assoc, ← hextend]
  | case2 l fresh i hfresh hrest => exact absurd h (not_endsAt_finish _ _ _)
  | case3 l fresh i hfresh first cs hrest more hfront ih =>
    obtain rfl : fresh = false := by simpa using hfresh
    -- Something is skipped, and the same with what follows the cut.
    rw [← i.stop_advance (more + 1)] at h
    have hended := ended_of_endsAt v l false _ h
    obtain ⟨ts, blocks, hpos, hrun, hextend⟩ := ih hblocks h hended
    have hfront' := front_extend v l.depth bs hi hrest (by rw [hfront]; exact hended)
    rw [hfront] at hfront'
    rw [Input.stop_advance] at hrun hextend
    refine ⟨ts, blocks, hpos, hrun, ?_⟩
    rw [run_cons v l (rest_extend bs hrest), hfront', ← hextend,
      ← Input.advance_extend bs (Nat.le_of_lt (lt_length_of_advance hended))]
  | case4 l fresh i hfresh first cs hrest kind more hfront ih =>
    obtain rfl : fresh = false := by simpa using hfresh
    rcases h.cons_cases with ⟨hk, hstop⟩ | h
    · obtain rfl : kind = .newline := hk
      obtain ⟨hfirst, hdepth, rfl⟩ := front_eq_newline hfront
      rw [hfirst] at hrest
      obtain ⟨hrun, hextend⟩ :=
        run_extend_newline v bs hdepth (rest_of_newline hrest rfl hstop)
      exact ⟨[i.token .newline 1], l.blocks, hblocks, hrun, hextend⟩
    -- Any other token is read before the cut, where the front is the same.
    · rw [← i.stop_advance (more + 1)] at h
      have hended := ended_of_endsAt v _ _ _ h
      have hlt := lt_length_of_advance hended
      obtain ⟨ts, blocks, hpos, hrun, hextend⟩ := ih hblocks h hended
      have hfront' := front_extend v l.depth bs hi hrest (by rw [hfront]; exact hended)
      rw [hfront] at hfront'
      rw [Input.stop_advance] at hrun hextend
      refine ⟨i.token kind (more + 1) :: ts, blocks, hpos, by rw [hrun, List.cons_append], ?_⟩
      rw [run_cons v l (rest_extend bs hrest), hfront', List.cons_append, ← hextend,
        ← Input.advance_extend bs (Nat.le_of_lt hlt),
        ← Input.token_extend bs kind (Nat.le_of_lt hlt)]

/-- The tokens of a text that is cut behind a newline. What follows the cut closes the blocks. -/
theorem run_append (v : Version) {bs : List Char} (hbs : Flush bs) (l : Layout) (fresh : Bool)
    (i : Input) (hblocks : ∀ column ∈ l.blocks, 0 < column)
    (h : EndsAt i.stop (run v l fresh i)) :
    ∃ ts, run v l fresh i = ts ++ [Token.endOfInput i.stop]
      ∧ run v l fresh (i.extend bs) = ts ++ run v .initial false ⟨i.stop, bs⟩ := by
  obtain ⟨ts, blocks, hpos, hrun, hextend⟩ := run_extend v bs l fresh i hblocks h
  rw [run_flush v hbs hpos rfl rfl] at hextend
  refine ⟨ts ++ blocks.map fun _ => ⟨.dedent, ⟨i.stop, i.stop⟩, ""⟩, ?_, ?_⟩
  · rw [hrun, List.append_assoc]
    rfl
  · rw [hextend, List.append_assoc]

/-! ### A text at another offset -/

private theorem skipBlankLines_move (n : Nat) (i : Input) :
    skipBlankLines (i.move n) = (skipBlankLines i).move n := by
  fun_induction skipBlankLines i with
  | case1 i m cs hline ih =>
    rw [skipBlankLines_newline (i := i.move n) hline, Input.advance_move]
    exact ih
  | case2 i m cs hcomment ih =>
    rw [skipBlankLines_comment (i := i.move n) hcomment, Input.advance_move]
    exact ih
  | case3 i m hline hcomment => exact skipBlankLines_of_ne hline hcomment

private theorem openLine_move (n : Nat) (l : Layout) (i : Input) :
    openLine l (i.move n) = ((openLine l i).1.map (Token.shift n), (openLine l i).2.1,
      (openLine l i).2.2.move n) := by
  have hbody : (i.move n).skipWhile isMargin = (i.skipWhile isMargin).move n :=
    Input.advance_move n i _
  have hrest : ((i.skipWhile isMargin).move n).rest = (i.skipWhile isMargin).rest := rfl
  have hmargin : (i.move n).rest = i.rest := rfl
  simp only [openLine, hbody, hrest, hmargin, Input.token_move]
  split
  · rfl
  · split
    · rfl
    · split
      · rfl
      · split
        · simp
        · simp [Token.shift]

private theorem finish_move (n : Nat) (l : Layout) (size : Nat) :
    finish l (size + n) = (finish l size).map (Token.shift n) := by
  simp only [finish, List.map_append, List.map_map]
  congr 2
  split <;> rfl

/-- The tokens of a text that begins `n` bytes later. -/
theorem run_move (n : Nat) (v : Version) (l : Layout) (fresh : Bool) (i : Input) :
    run v l fresh (i.move n) = (run v l fresh i).map (Token.shift n) := by
  fun_induction run v l fresh i with
  | case1 l i opened ih =>
    rw [run_fresh, skipBlankLines_move, openLine_move, List.map_append, ← ih]
  | case2 l fresh i hfresh hrest =>
    obtain rfl : fresh = false := by simpa using hfresh
    rw [run_nil v l (i := i.move n) hrest]
    exact finish_move n l i.offset
  | case3 l fresh i hfresh first cs hrest more hfront ih =>
    obtain rfl : fresh = false := by simpa using hfresh
    rw [run_cons v l (i := i.move n) hrest, hfront, ← ih, ← Input.advance_move]
  | case4 l fresh i hfresh first cs hrest kind more hfront ih =>
    obtain rfl : fresh = false := by simpa using hfresh
    rw [run_cons v l (i := i.move n) hrest, hfront, List.map_cons, ← ih, ← Input.advance_move,
      ← Input.token_move]

end Lexer

/-- A text that begins at the margin has nothing to settle before its first line. -/
private theorem tokenize_flush (v : Version) {b : String} (hb : Lexer.Flush b.toList) :
    tokenize v b = Lexer.run v .initial false (.ofChars b.toList) :=
  Lexer.run_flush v hb (fun column hc => by cases hc) rfl rfl 0

/-- A text that begins at the margin begins with a token of its first line. -/
theorem tokenize_flush_cons (v : Version) {b : String} (hb : Lexer.Flush b.toList) :
    ∃ t ts, tokenize v b = t :: ts ∧ t.kind.isLayout = false := by
  rw [tokenize_flush v hb]
  exact Lexer.run_flush_cons v hb 0

/-- The tokens of two texts in a row, where the first one ends a line and the second one
    begins at the margin. The end of input between them is gone. -/
theorem tokenize_append (v : Version) {a b : String}
    (ha : Lexer.EndsAt a.utf8ByteSize (tokenize v a)) (hb : Lexer.Flush b.toList) :
    ∃ ts, tokenize v a = ts ++ [Token.endOfInput a.utf8ByteSize] ∧ Laid false 0 ts
      ∧ tokenize v (a ++ b) = ts ++ (tokenize v b).map (Token.shift a.utf8ByteSize) := by
  have hstop : (Lexer.Input.ofChars a.toList).stop = a.utf8ByteSize := by
    rw [Lexer.Input.stop, Lexer.Input.ofChars, Nat.zero_add, Text.byteSize_toList]
  have hcut : Lexer.Input.ofChars (a ++ b).toList
      = (Lexer.Input.ofChars a.toList).extend b.toList := by
    rw [String.toList_append]
    rfl
  have hnone : ∀ column ∈ Lexer.Layout.initial.blocks, 0 < column := fun column hc => by cases hc
  obtain ⟨ts, hfirst, hwhole⟩ := Lexer.run_append v hb .initial true (.ofChars a.toList) hnone
    (by rw [hstop]; exact ha)
  rw [hstop] at hfirst hwhole
  obtain ⟨us, hus, hlaid⟩ := tokenize_laid v a
  have hsame : us = ts := List.append_cancel_right (hus.symm.trans hfirst)
  refine ⟨ts, hfirst, hsame ▸ hlaid, ?_⟩
  have hsecond := tokenize_flush v hb
  have hmove := Lexer.run_move a.utf8ByteSize v .initial false (.ofChars b.toList)
  rw [hsecond, ← hmove, tokenize, hcut, hwhole]
  simp [Lexer.Input.move, Lexer.Input.ofChars]

end PyAtlas
