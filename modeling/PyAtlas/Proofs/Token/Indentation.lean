import PyAtlas.Proofs.Syntax.Brackets

/-!
# Lines beneath lines

A `LineTree` is a line of words and the lines that are indented beneath it. `Written` says how
lines may stand in a text: all lines of one block at one column, what is beneath a line at any
deeper column, and blank lines and lines with only a comment wherever a line may begin. However
the text is laid out, its tokens are the words of the lines with a newline behind each line and
each block between an indent and a dedent.

A block is closed by the line after it and not at its own end, so the lexer owes the dedents of
the blocks that have ended just before: `Settles` says what the next line pays.

## Key results
- `run_renders_line`, `run_line`: one line and the blocks that it opens or closes.
- `Written.run`: some lines and all beneath them.
- `tokenize_written`: the tokens of a whole text.
-/

namespace PyAtlas

/-! ### Lines and their words -/

/-- A line of words and the lines beneath it. -/
inductive LineTree
  | mk (words : List Word) (beneath : List LineTree)

namespace Word

def newline : Word := ⟨.newline, ""⟩
def indent : Word := ⟨.indent, ""⟩
def dedent : Word := ⟨.dedent, ""⟩
def eof : Word := ⟨.eof, ""⟩

end Word

mutual

/-- The words of a line and of the lines beneath it, with the layout among them. -/
def LineTree.stream : LineTree → List Word
  | .mk words beneath =>
    words ++ .newline ::
      (if beneath.isEmpty then [] else .indent :: lineStream beneath ++ [.dedent])

/-- The words of some lines one after the other. -/
def lineStream : List LineTree → List Word
  | [] => []
  | line :: lines => line.stream ++ lineStream lines

end

/-- Every line has words that are read as they stand, and brackets match within each line. -/
inductive LineTree.Readable (v : Version) : LineTree → Prop
  | mk {words : List Word} {beneath : List LineTree} :
    words ≠ [] → Lexer.AllSeparate v words → Balanced true true words →
    (∀ line ∈ beneath, Readable v line) → Readable v (.mk words beneath)

/-! ### Lines in a text -/

/-- A line without words: a margin and at most a comment. -/
structure Wordless (line : List Char) : Prop where
  split : ∃ margin comment, line = margin ++ comment
    ∧ (∀ c ∈ margin, Lexer.isMargin c = true)
    ∧ (comment = [] ∨ ∃ text, comment = '#' :: text ∧ '\n' ∉ text)

/-- Some spaces. -/
def spaces (n : Nat) : List Char := List.replicate n ' '

/-- The text holds the lines, the outermost ones at the given column. -/
inductive Written : (column : Nat) → List LineTree → (text : List Char) → Prop
  | nil {column : Nat} : Written column [] []
  | wordless {column : Nat} {lines : List LineTree} {line text : List Char} :
    Wordless line → Written column lines text →
    Written column lines (line ++ '\n' :: text)
  | line {column : Nat} {words : List Word} {lines : List LineTree} {text : List Char} :
    Written column lines text →
    Written column (.mk words [] :: lines)
      (spaces column ++ (Lexer.spaced words ++ '\n' :: text))
  | block {column deeper : Nat} {words : List Word} {beneath lines : List LineTree}
    {inner text : List Char} :
    0 < deeper → beneath ≠ [] → Written (column + deeper) beneath inner →
    Written column lines text →
    Written column (.mk words beneath :: lines)
      (spaces column ++ (Lexer.spaced words ++ '\n' :: (inner ++ text)))

namespace Lexer

/-! ### The start of a line -/

/-- Characters of a margin that lead to the column. -/
structure Margin (column : Nat) (margin : List Char) : Prop where
  only : ∀ c ∈ margin, isMargin c = true
  leads : margin.foldl advanceColumn 0 = column

theorem margin_spaces (n : Nat) : Margin n (spaces n) := by
  have honly : ∀ c ∈ spaces n, isMargin c = true := by
    intro c hc
    rw [List.eq_of_mem_replicate hc]
    rfl
  have hfold : ∀ n start, (spaces n).foldl advanceColumn start = start + n := by
    intro n
    induction n with
    | zero => exact fun _ => rfl
    | succ n ih =>
      intro start
      rw [spaces, List.replicate_succ, List.foldl_cons]
      exact (ih _).trans (Nat.succ_add_eq_add_succ start n)
  exact ⟨honly, by rw [hfold, Nat.zero_add]⟩

section Margin

variable {column : Nat} {margin : List Char} {first : Char}

theorem Margin.countWhile_eq (h : Margin column margin) (hfirst : isMargin first = false)
    (cs : List Char) : countWhile isMargin (margin ++ first :: cs) = margin.length := by
  rw [countWhile, List.takeWhile_append_of_pos h.only, List.takeWhile_cons_of_neg (by simp [hfirst]),
    List.append_nil]

theorem Margin.marginColumn_eq (h : Margin column margin) (hfirst : isMargin first = false)
    (cs : List Char) : marginColumn (margin ++ first :: cs) = column := by
  rw [marginColumn, List.takeWhile_append_of_pos h.only,
    List.takeWhile_cons_of_neg (by simp [hfirst]), List.append_nil, h.leads]

theorem Margin.skipBlankLines_eq (h : Margin column margin) (hfirst : startsWord first = true)
    (offset : Nat) (cs : List Char) :
    skipBlankLines ⟨offset, margin ++ first :: cs⟩ = ⟨offset, margin ++ first :: cs⟩ := by
  obtain ⟨hmargin, hnewline, hcomment, -⟩ := startsWord_iff.1 hfirst
  have hdrop : (margin ++ first :: cs).drop (countWhile isMargin (margin ++ first :: cs))
      = first :: cs := by
    rw [h.countWhile_eq hmargin]
    simp
  refine skipBlankLines_of_ne ?_ ?_
  all_goals
    intro ds heq
    rw [hdrop] at heq
    obtain ⟨rfl, -⟩ := List.cons.inj heq
    contradiction

end Margin

theorem Input.advance_append (offset : Nat) (as bs : List Char) :
    Input.advance ⟨offset, as ++ bs⟩ as.length = ⟨offset + Text.byteSize as, bs⟩ := by
  simp [Input.advance]

/-- A line without words is passed over. -/
theorem skipBlankLines_wordless {line : List Char} (h : Wordless line) (offset : Nat)
    (cs : List Char) : skipBlankLines ⟨offset, line ++ '\n' :: cs⟩
      = skipBlankLines ⟨offset + Text.byteSize (line ++ ['\n']), cs⟩ := by
  have hadvance := Input.advance_append offset (line ++ ['\n']) cs
  rw [List.append_assoc, List.singleton_append, List.length_append] at hadvance
  rw [← hadvance]
  obtain ⟨margin, comment, rfl, hmargin, rfl | ⟨text, rfl, htext⟩⟩ := h.split
  -- Nothing but a margin, or a comment behind it.
  · rw [List.append_nil]
    have hcount : countWhile isMargin (margin ++ '\n' :: cs) = margin.length := by
      rw [countWhile, List.takeWhile_append_of_pos hmargin]
      simp [isMargin]
    have hnewline : (margin ++ '\n' :: cs).drop (countWhile isMargin (margin ++ '\n' :: cs))
        = '\n' :: cs := by simp [hcount]
    rw [skipBlankLines_newline hnewline, hcount]
    rfl
  · rw [List.append_assoc, List.cons_append]
    have hcount : countWhile isMargin (margin ++ '#' :: (text ++ '\n' :: cs)) = margin.length := by
      rw [countWhile, List.takeWhile_append_of_pos hmargin]
      simp [isMargin]
    have htext : countWhile (· != '\n') (text ++ '\n' :: cs) = text.length := by
      have hne : ∀ c ∈ text, (c != '\n') = true :=
        fun c hc => bne_iff_ne.2 fun heq => htext (heq ▸ hc)
      rw [countWhile, List.takeWhile_append_of_pos hne]
      simp
    have hcomment : (margin ++ '#' :: (text ++ '\n' :: cs)).drop
        (countWhile isMargin (margin ++ '#' :: (text ++ '\n' :: cs)))
          = '#' :: (text ++ '\n' :: cs) := by
      simp [hcount]
    rw [skipBlankLines_comment hcomment, hcount, htext]
    simp [Nat.add_assoc, Nat.add_comm 1]

/-! ### Blocks that a line opens or closes -/

/-- A line at the column, behind the open blocks `blocks`, begins with the layout `paid` and
    leaves the blocks `left` open. -/
inductive Settles (column : Nat) : (blocks : List Nat) → (paid : List Word) → (left : List Nat) → Prop
  | same {closed left : List Nat} : (∀ c ∈ closed, column < c) → left.headD 0 = column →
    Settles column (closed ++ left) (List.replicate closed.length .dedent) left
  | deeper {blocks : List Nat} : blocks.headD 0 < column →
    Settles column blocks [.indent] (column :: blocks)

theorem Settles.headD {column : Nat} {blocks left : List Nat} {paid : List Word}
    (h : Settles column blocks paid left) : left.headD 0 = column := by
  cases h with
  | same _ h => exact h
  | deeper _ => rfl

/-- The blocks that a line closes and those that it leaves open. -/
theorem takeWhile_closed {column : Nat} {closed left : List Nat}
    (hclosed : ∀ c ∈ closed, column < c) (hleft : left.headD 0 = column) :
    (closed ++ left).takeWhile (column < ·) = closed
      ∧ (closed ++ left).dropWhile (column < ·) = left := by
  have hpos : ∀ c ∈ closed, decide (column < c) = true := fun c hc => decide_eq_true (hclosed c hc)
  rw [List.takeWhile_append_of_pos hpos, List.dropWhile_append_of_pos hpos]
  cases left with
  | nil => exact ⟨List.append_nil _, rfl⟩
  | cons c left =>
    have hstop : ¬ column < c := Nat.not_lt.2 (Nat.le_of_eq hleft)
    simp [hstop]

/-- The layout at the start of a line. -/
theorem openLine_margin {column : Nat} {margin : List Char} (hmargin : Margin column margin)
    {blocks left : List Nat} {paid : List Word} (h : Settles column blocks paid left)
    {first : Char} (hfirst : startsWord first = true) (offset : Nat) (cs : List Char) :
    ∃ ts, ts.map Token.word = paid
      ∧ openLine ⟨blocks, 0, false⟩ ⟨offset, margin ++ first :: cs⟩
        = (ts, ⟨left, 0, false⟩, ⟨offset + Text.byteSize margin, first :: cs⟩) := by
  obtain ⟨hplain, -, -, hbackslash⟩ := startsWord_iff.1 hfirst
  have hbody : Input.skipWhile ⟨offset, margin ++ first :: cs⟩ isMargin
      = ⟨offset + Text.byteSize margin, first :: cs⟩ := by
    rw [← Input.advance_append offset margin (first :: cs), Input.skipWhile, ← countWhile,
      hmargin.countWhile_eq hplain]
  have hcolumn := hmargin.marginColumn_eq hplain cs
  simp only [openLine, hbody, hcolumn]
  rw [if_neg (by simpa using hbackslash)]
  cases h with
  -- The line opens a block, or it closes some and continues the one that is left.
  | deeper hdeeper =>
    have hopens : (⟨blocks, 0, false⟩ : Layout).column < column := hdeeper
    rw [if_pos hopens]
    exact ⟨_, rfl, rfl⟩
  | @same closed left hclosed hleft =>
    have hnot : ¬ (⟨closed ++ left, 0, false⟩ : Layout).column < column := by
      cases closed with
      | nil => exact Nat.not_lt.2 (Nat.le_of_eq hleft.symm)
      | cons c closed => exact Nat.not_lt.2 (Nat.le_of_lt (hclosed c List.mem_cons_self))
    obtain ⟨htake, hdrop⟩ := takeWhile_closed hclosed hleft
    have hleft' : (left.headD 0 == column) = true := beq_iff_eq.2 hleft
    rw [if_neg hnot, htake, hdrop]
    simp only [Layout.column, hleft', Bool.false_and, if_true]
    refine ⟨_, ?_, rfl⟩
    rw [List.map_map, List.eq_replicate_iff]
    refine ⟨List.length_map _, fun w hw => ?_⟩
    obtain ⟨c, -, rfl⟩ := List.mem_map.1 hw
    rfl

/-! ### Lines -/

/-- A newline outside of brackets ends the line. -/
theorem run_newline (v : Version) {l : Layout} (h : l.depth = 0) (offset : Nat)
    (rest : List Char) :
    ∃ t, t.word = .newline ∧ run v l false ⟨offset, '\n' :: rest⟩
      = t :: run v ⟨l.blocks, 0, false⟩ true ⟨offset + 1, rest⟩ := by
  have hfront : front v l.depth '\n' rest = .token .newline 0 := by
    rw [h]
    rfl
  have hafter : l.after .newline = ⟨l.blocks, 0, false⟩ := by
    show (⟨l.blocks, l.depth, false⟩ : Layout) = _
    rw [h]
  refine ⟨Input.token ⟨offset, '\n' :: rest⟩ .newline 1, rfl, ?_⟩
  rw [run_cons v l rfl, hfront]
  simp only [hafter]
  rfl

/-- One line behind some open blocks. -/
theorem run_renders_line {v : Version} {column : Nat} {margin : List Char}
    (hmargin : Margin column margin) {blocks left : List Nat} {paid words : List Word}
    (h : Settles column blocks paid left) {first : Char} {cs rest : List Char}
    (hfirst : startsWord first = true) (hwords : Renders v ('\n' :: rest) words (first :: cs))
    (hdepth : (Layout.through ⟨left, 0, false⟩ words).depth = 0) (offset : Nat) :
    ∃ ts offset', ts.map Token.word = paid ++ (words ++ [.newline])
      ∧ run v ⟨blocks, 0, false⟩ true ⟨offset, margin ++ (first :: cs ++ '\n' :: rest)⟩
        = ts ++ run v ⟨left, 0, false⟩ true ⟨offset', rest⟩ := by
  obtain ⟨opening, hopening, hopen⟩ := openLine_margin hmargin h hfirst offset (cs ++ '\n' :: rest)
  obtain ⟨ts, hts, hrun⟩ :=
    run_renders hwords ⟨left, 0, false⟩ (offset + Text.byteSize margin)
  obtain ⟨t, ht, hnewline⟩ := run_newline v hdepth
    (offset + Text.byteSize margin + Text.byteSize (first :: cs)) rest
  refine ⟨opening ++ (ts ++ [t]),
    offset + Text.byteSize margin + Text.byteSize (first :: cs) + 1, ?_, ?_⟩
  · rw [List.map_append, List.map_append, hopening, hts, List.map_singleton, ht]
  · rw [run_fresh, List.cons_append, hmargin.skipBlankLines_eq hfirst, hopen]
    dsimp only
    rw [← List.cons_append, hrun, hnewline, Layout.through_blocks]
    simp only [List.append_assoc, List.singleton_append]

/-- One line of words with spaces between them. -/
theorem run_line {v : Version} {column : Nat} {blocks left : List Nat} {paid words : List Word}
    (h : Settles column blocks paid left) (hne : words ≠ []) (hwords : AllSeparate v words)
    (hbalanced : Balanced true true words) (offset : Nat) (rest : List Char) :
    ∃ ts offset', ts.map Token.word = paid ++ (words ++ [.newline])
      ∧ run v ⟨blocks, 0, false⟩ true
          ⟨offset, spaces column ++ (spaced words ++ '\n' :: rest)⟩
        = ts ++ run v ⟨left, 0, false⟩ true ⟨offset', rest⟩ := by
  -- The first word decides that the line is neither blank nor continued.
  obtain ⟨first, cs, hfirst, hstarts⟩ : ∃ first cs,
      spaced words = first :: cs ∧ startsWord first = true := by
    obtain ⟨w, words, rfl⟩ := List.exists_cons_of_ne_nil hne
    obtain ⟨first, cs, hfirst, hmargin, hnewline, hcomment, hbackslash⟩ :=
      flush_spaced (hwords w List.mem_cons_self) words []
    refine ⟨first, cs, by rw [← hfirst, List.append_nil], ?_⟩
    simp [startsWord, hmargin, hnewline, hcomment, hbackslash]
  have hrest : Apart ('\n' :: rest) := fun c hc => .inr (Option.some.inj hc).symm
  have hrenders := renders_spaced hwords hrest
  rw [hfirst] at hrenders ⊢
  exact run_renders_line (margin_spaces column) h hstarts hrenders (hbalanced.depth _) offset

/-! ### Blocks of lines -/

/-- Nothing tells a text from the same text behind a line without words. -/
theorem run_wordless (v : Version) (l : Layout) {line : List Char} (h : Wordless line)
    (offset : Nat) (rest : List Char) :
    run v l true ⟨offset, line ++ '\n' :: rest⟩
      = run v l true ⟨offset + Text.byteSize (line ++ ['\n']), rest⟩ := by
  rw [run_fresh, skipBlankLines_wordless h, ← run_fresh]

/-- Nothing of the text makes a token. -/
def Untouched (v : Version) (blocks : List Nat) (offset : Nat) (text rest : List Char) : Prop :=
  ∃ offset', run v ⟨blocks, 0, false⟩ true ⟨offset, text ++ rest⟩
    = run v ⟨blocks, 0, false⟩ true ⟨offset', rest⟩

/-- The text makes the tokens of the stream but for the dedents of the blocks `owed`, which are
    still open behind it. -/
def ReadsLines (v : Version) (column : Nat) (blocks left : List Nat) (stream : List Word)
    (offset : Nat) (text rest : List Char) : Prop :=
  ∃ ts owed offset', (∀ c ∈ owed, column < c)
    ∧ ts.map Token.word ++ List.replicate owed.length .dedent = stream
    ∧ run v ⟨blocks, 0, false⟩ true ⟨offset, text ++ rest⟩
      = ts ++ run v ⟨owed ++ left, 0, false⟩ true ⟨offset', rest⟩

namespace ReadsLines

variable {v : Version} {blocks blocks' left : List Nat} {column offset offset' : Nat}
  {stream before : List Word} {text text' rest : List Char}

/-- Tokens that have been read before. -/
theorem behind {ts : List Token} (hts : ts.map Token.word = before)
    (hrun : run v ⟨blocks, 0, false⟩ true ⟨offset, text' ++ rest⟩
      = ts ++ run v ⟨blocks', 0, false⟩ true ⟨offset', text ++ rest⟩)
    (h : ReadsLines v column blocks' left stream offset' text rest) :
    ReadsLines v column blocks left (before ++ stream) offset text' rest := by
  obtain ⟨ts', owed, offset'', howed, hstream, hrun'⟩ := h
  refine ⟨ts ++ ts', owed, offset'', howed, ?_, ?_⟩
  · rw [List.map_append, List.append_assoc, hstream, hts]
  · rw [hrun, hrun', List.append_assoc]

/-- In a block that is open already it makes no difference whether there are lines. -/
theorem of_open {closed : List Nat} {lines : List LineTree} (hclosed : ∀ c ∈ closed, column < c)
    (h : (lines = [] ∧ Untouched v (closed ++ left) offset text rest)
      ∨ ReadsLines v column (closed ++ left) left
        (List.replicate closed.length .dedent ++ lineStream lines) offset text rest) :
    ReadsLines v column (closed ++ left) left
      (List.replicate closed.length .dedent ++ lineStream lines) offset text rest := by
  rcases h with ⟨rfl, offset', hrun⟩ | h
  · exact ⟨[], closed, offset', hclosed, by rw [lineStream, List.append_nil]; rfl, hrun⟩
  · exact h

/-- A line of words in front of what follows it in its block. -/
theorem line {paid words : List Word} (h : Settles column blocks paid left) (hne : words ≠ [])
    (hwords : AllSeparate v words) (hbalanced : Balanced true true words)
    (hmore : ∀ offset', ReadsLines v column left left stream offset' text rest) :
    ReadsLines v column blocks left (paid ++ (words ++ .newline :: stream)) offset
      (spaces column ++ (spaced words ++ '\n' :: text)) rest := by
  obtain ⟨ts, offset', hts, hrun⟩ := run_line h hne hwords hbalanced offset (text ++ rest)
  have hstream : paid ++ (words ++ .newline :: stream)
      = (paid ++ (words ++ [.newline])) ++ stream := by
    simp
  rw [hstream]
  refine (hmore offset').behind hts ?_
  rw [List.append_assoc, List.append_assoc, List.cons_append]
  exact hrun

/-- A block in front of what follows it. The text of the block owes the dedents of the blocks in
    it, and one for itself. -/
theorem block {deeper : Nat} (hdeeper : 0 < deeper)
    (hinner : ReadsLines v (column + deeper) left ((column + deeper) :: left) before offset text'
      (text ++ rest))
    (hmore : ∀ closed offset', (∀ c ∈ closed, column < c) →
      ReadsLines v column (closed ++ left) left
        (List.replicate closed.length .dedent ++ stream) offset' text rest) :
    ReadsLines v column left left (before ++ .dedent :: stream) offset (text' ++ text) rest := by
  obtain ⟨ts, owed, offset', howed, hstream, hrun⟩ := hinner
  have hclosed : ∀ c ∈ owed ++ [column + deeper], column < c := by
    intro c hc
    rcases List.mem_append.1 hc with hc | hc
    · exact Nat.lt_of_le_of_lt (Nat.le_add_right _ _) (howed c hc)
    · rw [List.mem_singleton.1 hc]
      omega
  have hdedents : before ++ .dedent :: stream = ts.map Token.word
      ++ (List.replicate (owed ++ [column + deeper]).length .dedent ++ stream) := by
    rw [← hstream, List.length_append, List.length_singleton, List.replicate_succ']
    simp
  rw [hdedents]
  refine (hmore _ offset' hclosed).behind rfl ?_
  rw [List.append_assoc, hrun, List.append_assoc]
  rfl

end ReadsLines

/-- Lines at one column and all beneath them. A block that has no lines is not even opened. -/
theorem run_written {v : Version} {column : Nat} {lines : List LineTree} {text : List Char}
    (h : Written column lines text) (hlines : ∀ line ∈ lines, line.Readable v)
    {blocks left : List Nat} {paid : List Word} (hsettles : Settles column blocks paid left)
    (offset : Nat) (rest : List Char) :
    (lines = [] ∧ Untouched v blocks offset text rest)
      ∨ ReadsLines v column blocks left (paid ++ lineStream lines) offset text rest := by
  induction h generalizing blocks left paid offset rest with
  | nil => exact .inl ⟨rfl, offset, rfl⟩
  | @wordless column lines line text hline _ ih =>
    rw [ReadsLines, Untouched, List.append_assoc, List.cons_append, run_wordless v _ hline]
    exact ih hlines hsettles _ rest
  | @line column words lines text _ ih =>
    obtain ⟨⟨hne, hwords, hbalanced, -⟩, hlines⟩ := List.forall_mem_cons.1 hlines
    have hnone : ∀ c ∈ ([] : List Nat), column < c := fun c hc => nomatch hc
    have hopen : Settles column ([] ++ left) [] left := .same hnone hsettles.headD
    have hstream : lineStream (.mk words [] :: lines) = words ++ .newline :: lineStream lines := by
      simp [lineStream, LineTree.stream]
    rw [hstream]
    exact .inr (.line hsettles hne hwords hbalanced fun offset' =>
      .of_open hnone (ih hlines hopen offset' rest))
  | @block column deeper words beneath lines inner text hdeeper hne _ _ ihInner ih =>
    obtain ⟨⟨hne', hwords, hbalanced, hbeneath⟩, hlines⟩ := List.forall_mem_cons.1 hlines
    have hopens : Settles (column + deeper) left [.indent] ((column + deeper) :: left) :=
      .deeper (by rw [hsettles.headD]; omega)
    have hstream : lineStream (.mk words beneath :: lines) = words ++ .newline ::
        (([.indent] ++ lineStream beneath) ++ .dedent :: lineStream lines) := by
      simp [lineStream, LineTree.stream, hne]
    rw [hstream]
    refine .inr (.line hsettles hne' hwords hbalanced fun offset' => .block hdeeper ?_ ?_)
    · exact (ihInner hbeneath hopens offset' (text ++ rest)).resolve_left fun h => hne h.1
    · exact fun closed offset'' hclosed => .of_open hclosed
        (ih hlines (.same hclosed hsettles.headD) offset'' rest)

/-- The end of a text behind a line. -/
theorem finish_dedents (v : Version) (blocks : List Nat) (offset : Nat) :
    (run v ⟨blocks, 0, false⟩ true ⟨offset, []⟩).map Token.word
      = List.replicate blocks.length .dedent ++ [.eof] := by
  have hopen : openLine ⟨blocks, 0, false⟩ ⟨offset, []⟩
      = ([], ⟨blocks, 0, false⟩, ⟨offset, []⟩) := by
    simp [openLine, Input.skipWhile, Input.advance]
  have hdedents : (blocks.map fun _ => (⟨.dedent, ⟨offset, offset⟩, ""⟩ : Token)).map Token.word
      = List.replicate blocks.length .dedent := by
    rw [List.map_map]
    exact List.map_const'
  rw [run_fresh, skipBlankLines_nil, hopen, List.nil_append, run_nil v _ rfl, ← hdedents, finish,
    List.map_append]
  rfl

end Lexer

/-- The tokens of a text that holds some lines, however they are laid out. -/
theorem tokenize_written {v : Version} {lines : List LineTree} {text : String}
    (h : Written 0 lines text.toList) (hlines : ∀ line ∈ lines, line.Readable v) :
    (tokenize v text).map Token.word = lineStream lines ++ [.eof] := by
  have hnone : ∀ c ∈ ([] : List Nat), 0 < c := fun c hc => nomatch hc
  have hopen : Lexer.Settles 0 ([] ++ []) [] [] := .same hnone rfl
  have hread : Lexer.ReadsLines v 0 ([] ++ []) [] ([] ++ lineStream lines) 0 text.toList [] :=
    .of_open hnone (Lexer.run_written h hlines hopen 0 [])
  obtain ⟨ts, owed, offset, -, hstream, hrun⟩ := hread
  have hstart : tokenize v text = Lexer.run v ⟨[] ++ [], 0, false⟩ true ⟨0, text.toList ++ []⟩ := by
    rw [List.append_nil, List.append_nil]
    rfl
  rw [hstart, hrun, List.map_append, Lexer.finish_dedents, ← List.append_assoc, List.append_nil,
    hstream, List.nil_append]

end PyAtlas
