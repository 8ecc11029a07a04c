import PyAtlas.Proofs.Token.Coverage
import PyAtlas.Proofs.Token.Words

/-!
# The lexer step by step

One step of the lexer settles how a line begins, passes over something inside a line, or reads a
token. From any state the steps come to the end of the text, and the tokens that they yield are
those of the stream up to the tokens that end it. What one step keeps holds at every state: the
open blocks stand at ever greater columns, the lexer counts the brackets that the tokens so far have
left open, and a line begins outside of brackets only.

## Key definitions
- `Lexer.State`, `Lexer.Step`, `Lexer.Steps`: the states of the lexer and the steps between them.
- `bracketsLeftOpen`: the number of brackets that some tokens leave open.

## Key results
- `Lexer.Step.size_lt`, `Lexer.exists_steps_atEnd`: the lexer stops, at the end of the text.
- `Lexer.Steps.run`, `Lexer.Steps.ascending`, `Lexer.Steps.depth`: what any number of steps keeps.
- `Lexer.Steps.readsAt`, `Lexer.readsAt_or_finish`, `Lexer.exists_readsAt`: where a token is read.
- `Lexer.exists_front_of_mem_tokenize`: what stands where a word is read.
- `Lexer.atWord_openLine`: where the indentation of a line is shown a word follows.
-/

namespace PyAtlas

/-! ### Kinds of tokens -/

/-- Tokens that show the indentation of a line. -/
def TokenKind.isIndentation : TokenKind → Bool
  | .indent | .dedent | .error .inconsistentDedent => true
  | _ => false

/-- Tokens that are neither layout nor about the indentation of a line. -/
def TokenKind.isWord (kind : TokenKind) : Bool :=
  !kind.isLayout && !kind.isIndentation

theorem TokenKind.isWord_iff {kind : TokenKind} :
    kind.isWord = true ↔ kind.isLayout = false ∧ kind.isIndentation = false := by
  rw [TokenKind.isWord, Bool.and_eq_true, Bool.not_eq_true', Bool.not_eq_true']

/-- The number of open brackets behind a token. A bracket that closes nothing is not counted. -/
def bracketsAfter (depth : Nat) (t : Token) : Nat :=
  match t.kind with
  | .operator op =>
    if op.isOpening then depth + 1 else if op.isClosing then depth - 1 else depth
  | _ => depth

/-- The number of brackets that some tokens leave open. -/
def bracketsLeftOpen (ts : List Token) : Nat :=
  ts.foldl bracketsAfter 0

theorem bracketsAfter_of_isIndentation {t : Token} (h : t.kind.isIndentation = true) (depth : Nat) :
    bracketsAfter depth t = depth := by
  obtain ⟨kind, span, text⟩ := t
  cases kind with
  | operator op => cases h
  | _ => rfl

namespace Lexer

/-! ### States and steps -/

/-- Where the lexer is: the layout of the text before, whether the indentation of the line is still
    to be settled, and the unread text. -/
structure State where
  layout : Layout
  fresh : Bool
  input : Input

namespace State

/-- Before the first character of a text. -/
def start (source : String) : State :=
  ⟨.initial, true, .ofChars source.toList⟩

/-- The tokens that are still to come. -/
def run (v : Version) (s : State) : List Token :=
  Lexer.run v s.layout s.fresh s.input

/-- What is left to do: characters to read, and a line to begin. -/
def size (s : State) : Nat :=
  2 * s.input.rest.length + s.fresh.toNat

/-- The whole text has been read. -/
def AtEnd (s : State) : Prop :=
  s.fresh = false ∧ s.input.rest = []

/-- A word is next. -/
def AtWord (s : State) : Prop :=
  s.fresh = false ∧ ∃ first cs, s.input.rest = first :: cs ∧ startsWord first = true

/-- The columns of the open blocks grow from zero on. -/
def Ascending (s : State) : Prop :=
  (0 :: s.layout.blocks.reverse).Pairwise (· < ·)

/-- A line begins outside of brackets only. -/
def LineOutside (s : State) : Prop :=
  s.fresh = true → s.layout.depth = 0

end State

/-- One step, with the tokens that it yields. -/
inductive Step (v : Version) : State → List Token → State → Prop
  | opened (l : Layout) (i : Input) :
    Step v ⟨l, true, i⟩ (openLine l (skipBlankLines i)).1
      ⟨(openLine l (skipBlankLines i)).2.1, false, (openLine l (skipBlankLines i)).2.2⟩
  | skipped {l : Layout} {i : Input} {first : Char} {cs : List Char} {more : Nat} :
    i.rest = first :: cs → front v l.depth first cs = .skipped more →
    Step v ⟨l, false, i⟩ [] ⟨l, false, i.advance (more + 1)⟩
  | token {l : Layout} {i : Input} {first : Char} {cs : List Char} {kind : TokenKind} {more : Nat} :
    i.rest = first :: cs → front v l.depth first cs = .token kind more →
    Step v ⟨l, false, i⟩ [i.token kind (more + 1)]
      ⟨l.after kind, kind == .newline, i.advance (more + 1)⟩

/-- Any number of steps, with the tokens that they yield. -/
inductive Steps (v : Version) : State → List Token → State → Prop
  | refl (s : State) : Steps v s [] s
  | step {s s' s'' : State} {ts ts' : List Token} :
    Step v s ts s' → Steps v s' ts' s'' → Steps v s (ts ++ ts') s''

variable {v : Version} {s s' : State} {ts : List Token}

/-- The tokens of a step come first. -/
theorem Step.run (h : Step v s ts s') : s.run v = ts ++ s'.run v := by
  cases h with
  | opened l i => exact run_fresh v l i
  | @skipped l i first cs more hrest hfront =>
    show Lexer.run v l false i = _
    rw [run_cons v l hrest, hfront]
    rfl
  | @token l i first cs kind more hrest hfront =>
    show Lexer.run v l false i = _
    rw [run_cons v l hrest, hfront]
    rfl

theorem Steps.run (h : Steps v s ts s') : s.run v = ts ++ s'.run v := by
  induction h with
  | refl s => rfl
  | step hstep _ ih => rw [hstep.run, ih, List.append_assoc]

/-- The tokens that end a stream are layout at the end of the text, and open no block. -/
theorem mem_finish {l : Layout} {size : Nat} {t : Token} (h : t ∈ finish l size) :
    t.span = ⟨size, size⟩ ∧ t.kind.isLayout = true ∧ t.kind ≠ .indent := by
  simp only [finish, List.mem_append, List.mem_map, List.mem_singleton] at h
  rcases h with (h | ⟨_, -, rfl⟩) | rfl
  · split at h
    · rw [List.mem_singleton.1 h]
      exact ⟨rfl, rfl, TokenKind.noConfusion⟩
    · cases h
  · exact ⟨rfl, rfl, TokenKind.noConfusion⟩
  · exact ⟨rfl, rfl, TokenKind.noConfusion⟩

theorem skipBlankLines_eq_advance (i : Input) : ∃ n, skipBlankLines i = i.advance n := by
  fun_induction skipBlankLines i with
  | case1 i n cs hrest ih =>
    obtain ⟨more, hmore⟩ := ih
    exact ⟨n + 1 + more, by rw [hmore, ← Input.advance_add]⟩
  | case2 i n cs hrest ih =>
    obtain ⟨more, hmore⟩ := ih
    exact ⟨n + 1 + countWhile (· != '\n') cs + 1 + more, by rw [hmore, ← Input.advance_add]⟩
  | case3 i n hother hno => exact ⟨0, by simp [Input.advance]⟩

/-- A step reads some characters. -/
theorem Step.advances (h : Step v s ts s') : ∃ n, s'.input = s.input.advance n := by
  cases h with
  | opened l i =>
    obtain ⟨n, hn⟩ := skipBlankLines_eq_advance i
    refine ⟨n + countWhile isMargin (i.advance n).rest, ?_⟩
    show (openLine l (skipBlankLines i)).2.2 = _
    rw [openLine_input, hn, Input.advance_add]
    rfl
  | skipped _ _ => exact ⟨_, rfl⟩
  | token _ _ => exact ⟨_, rfl⟩

/-- A step leaves less to do. -/
theorem Step.size_lt (h : Step v s ts s') : s'.size < s.size := by
  have hread : ∀ (i : Input) first cs more, i.rest = first :: cs →
      (i.advance (more + 1)).rest.length < i.rest.length := by
    intro i first cs more hrest
    rw [Input.length_rest_advance, hrest, List.length_cons]
    omega
  cases h with
  | opened l i =>
    have hopen := length_rest_openLine_le l (skipBlankLines i)
    have hskip := length_rest_skipBlankLines_le i
    simp only [State.size, Bool.toNat_true, Bool.toNat_false]
    omega
  | @skipped l i first cs more hrest _ =>
    have hless := hread i first cs more hrest
    simp only [State.size]
    omega
  | @token l i first cs kind more hrest _ =>
    have hless := hread i first cs more hrest
    have hfresh := Bool.toNat_le (kind == .newline)
    simp only [State.size]
    omega

theorem Steps.advances (h : Steps v s ts s') : ∃ n, s'.input = s.input.advance n := by
  induction h with
  | refl s => exact ⟨0, by simp [Input.advance]⟩
  | step hstep _ ih =>
    obtain ⟨n, hn⟩ := hstep.advances
    obtain ⟨m, hm⟩ := ih
    exact ⟨n + m, by rw [hm, hn, ← Input.advance_add]⟩

/-- No step moves the end of the text. -/
theorem Step.stop (h : Step v s ts s') : s'.input.stop = s.input.stop := by
  obtain ⟨n, hn⟩ := h.advances
  rw [hn, Input.stop_advance]

theorem Steps.stop (h : Steps v s ts s') : s'.input.stop = s.input.stop := by
  induction h with
  | refl s => rfl
  | step hstep _ ih => rw [ih, hstep.stop]

/-- From any state the lexer comes to the end of the text. -/
theorem exists_steps_atEnd (v : Version) (s : State) :
    ∃ ts s', Steps v s ts s' ∧ s'.AtEnd := by
  obtain ⟨l, fresh, i⟩ := s
  fun_induction Lexer.run v l fresh i with
  | case1 l i opened ih =>
    obtain ⟨ts, s', hsteps, hend⟩ := ih
    exact ⟨_, s', .step (.opened l i) hsteps, hend⟩
  | case2 l fresh i hfresh hrest =>
    obtain rfl : fresh = false := Bool.eq_false_iff.2 hfresh
    exact ⟨[], _, .refl _, rfl, hrest⟩
  | case3 l fresh i hfresh first cs hrest more hfront ih =>
    obtain rfl : fresh = false := Bool.eq_false_iff.2 hfresh
    obtain ⟨ts, s', hsteps, hend⟩ := ih
    exact ⟨_, s', .step (.skipped hrest hfront) hsteps, hend⟩
  | case4 l fresh i hfresh first cs hrest kind more hfront ih =>
    obtain rfl : fresh = false := Bool.eq_false_iff.2 hfresh
    obtain ⟨ts, s', hsteps, hend⟩ := ih
    exact ⟨_, s', .step (.token hrest hfront) hsteps, hend⟩

/-- At the end of the text only the tokens that end the stream are to come. -/
theorem State.AtEnd.run (h : s.AtEnd) : s.run v = finish s.layout s.input.stop := by
  obtain ⟨l, fresh, i⟩ := s
  obtain ⟨rfl, hrest⟩ := h
  have hstop : i.stop = i.offset := by simp [Input.stop, show i.rest = [] from hrest]
  rw [hstop]
  exact run_nil v l hrest

/-! ### The open blocks -/

theorem State.ascending_iff :
    s.Ascending ↔ (s.layout.blocks ++ [0]).Pairwise (· > ·) := by
  have hreverse : 0 :: s.layout.blocks.reverse = (s.layout.blocks ++ [0]).reverse := by
    rw [List.reverse_append, List.reverse_singleton, List.singleton_append]
  rw [Ascending, hreverse, List.pairwise_reverse]

/-- The innermost block is the deepest, so a column deeper than it is deeper than all. -/
theorem pairwise_cons_of_column_lt {l : Layout} {column : Nat}
    (h : (l.blocks ++ [0]).Pairwise (· > ·)) (hdeeper : l.column < column) :
    (column :: l.blocks ++ [0]).Pairwise (· > ·) := by
  obtain ⟨blocks, depth, lineOpen⟩ := l
  cases blocks with
  | nil => exact .cons (List.forall_mem_singleton.2 hdeeper) h
  | cons innermost blocks =>
    refine .cons (List.forall_mem_cons.2 ⟨hdeeper, fun other hmem => ?_⟩) h
    exact Nat.lt_trans (List.rel_of_pairwise_cons h hmem) hdeeper

theorem openLine_ascending {l : Layout} (h : (l.blocks ++ [0]).Pairwise (· > ·)) (i : Input) :
    ((openLine l i).2.1.blocks ++ [0]).Pairwise (· > ·) := by
  have hleft : ∀ column, (l.blocks.dropWhile (column < ·) ++ [0]).Pairwise (· > ·) :=
    fun column => h.sublist ((List.dropWhile_sublist _).append_right [0])
  simp only [openLine]
  split
  · exact h
  · split
    · exact h
    · split
      · rename_i hdeeper
        exact pairwise_cons_of_column_lt h hdeeper
      · split
        · exact hleft _
        · exact hleft _

theorem Step.ascending (h : Step v s ts s') (hs : s.Ascending) : s'.Ascending := by
  cases h with
  | opened l i =>
    rw [State.ascending_iff] at hs ⊢
    exact openLine_ascending hs _
  | skipped _ _ => exact hs
  | token _ _ => exact hs

theorem Steps.ascending (h : Steps v s ts s') (hs : s.Ascending) : s'.Ascending := by
  induction h with
  | refl s => exact hs
  | step hstep _ ih => exact ih (hstep.ascending hs)

/-! ### The open brackets -/

/-- The tokens before a line are about its indentation. -/
theorem isIndentation_of_mem_openLine {l : Layout} {i : Input} {t : Token}
    (h : t ∈ (openLine l i).1) : t.kind.isIndentation = true := by
  have hdedents : ∀ columns : List Nat,
      t ∈ columns.map (fun _ => (i.skipWhile isMargin).token .dedent 0) →
        t.kind.isIndentation = true := by
    intro columns hmem
    obtain ⟨_, -, rfl⟩ := List.mem_map.1 hmem
    rfl
  simp only [openLine] at h
  split at h
  · cases h
  · split at h
    · cases h
    · split at h
      · rw [List.mem_singleton.1 h]
        rfl
      · split at h
        · exact hdedents _ h
        · rcases List.mem_append.1 h with h | h
          · exact hdedents _ h
          · rw [List.mem_singleton.1 h]
            rfl

theorem Step.depth (h : Step v s ts s') :
    s'.layout.depth = ts.foldl bracketsAfter s.layout.depth := by
  cases h with
  | opened l i =>
    show (openLine l (skipBlankLines i)).2.1.depth
      = (openLine l (skipBlankLines i)).1.foldl bracketsAfter l.depth
    rw [depth_openLine]
    have hall : ∀ t ∈ (openLine l (skipBlankLines i)).1, t.kind.isIndentation = true :=
      fun t => isIndentation_of_mem_openLine
    generalize (openLine l (skipBlankLines i)).1 = ts at hall
    induction ts with
    | nil => rfl
    | cons t ts ih =>
      obtain ⟨ht, hts⟩ := List.forall_mem_cons.1 hall
      rw [List.foldl_cons, bracketsAfter_of_isIndentation ht]
      exact ih hts
  | skipped _ _ => rfl
  | @token l i first cs kind more _ _ => cases kind <;> rfl

/-- The lexer counts the brackets that the tokens leave open. -/
theorem Steps.depth (h : Steps v s ts s') :
    s'.layout.depth = ts.foldl bracketsAfter s.layout.depth := by
  induction h with
  | refl s => rfl
  | step hstep _ ih => rw [ih, hstep.depth, List.foldl_append]

/-- The token `t` is read inside a line, behind the tokens `before` and in front of `after`. -/
def ReadsAt (v : Version) (s : State) (before : List Token) (t : Token) (after : List Token)
    (s' : State) : Prop :=
  ∃ l i first cs more, Steps v s before ⟨l, false, i⟩ ∧ i.rest = first :: cs
    ∧ front v l.depth first cs = .token t.kind more ∧ t = i.token t.kind (more + 1)
    ∧ Steps v ⟨l.after t.kind, t.kind == .newline, i.advance (more + 1)⟩ after s'

theorem ReadsAt.behind {s₁ : State} {before after : List Token} {t : Token}
    (hstep : Step v s ts s₁) (h : ReadsAt v s₁ before t after s') :
    ReadsAt v s (ts ++ before) t after s' := by
  obtain ⟨l, i, first, cs, more, hbefore, hread⟩ := h
  exact ⟨l, i, first, cs, more, .step hstep hbefore, hread⟩

/-- Each token that does not show the indentation of a line is read inside one. -/
theorem Steps.readsAt {before after : List Token} {t : Token}
    (h : Steps v s (before ++ t :: after) s') (hkind : t.kind.isIndentation = false) :
    ReadsAt v s before t after s' := by
  generalize hall : before ++ t :: after = all at h
  induction h generalizing before with
  | refl s => cases before <;> cases hall
  | @step s s₁ s' ts ts' hstep hsteps ih =>
    -- Either the token is one of a later step, or it is one of the first.
    rcases List.append_eq_append_iff.1 hall with ⟨more, hts, hafter⟩ | ⟨later, hbefore, hts'⟩
    · cases more with
      | nil =>
        rw [List.append_nil] at hts
        rw [← hts, ← List.append_nil ts]
        exact (ih hafter).behind hstep
      | cons u more =>
        obtain ⟨rfl, rfl⟩ := List.cons.inj hafter
        cases hstep with
        | opened l i =>
          have hmem : t ∈ (openLine l (skipBlankLines i)).1 := by rw [hts]; simp
          rw [isIndentation_of_mem_openLine hmem] at hkind
          cases hkind
        | skipped _ _ => cases before <;> cases hts
        | @token l i first cs kind n hrest hfront =>
          obtain ⟨rfl, hone⟩ : before = [] ∧ t :: more = [i.token kind (n + 1)] := by
            cases before with
            | nil => exact ⟨rfl, hts.symm⟩
            | cons u before => cases before <;> cases hts
          cases hone
          exact ⟨l, i, first, cs, n, .refl _, hrest, hfront, rfl, hsteps⟩
    · rw [hbefore]
      exact (ih hts'.symm).behind hstep

/-- A token of a text is read inside a line, or it is one of those that end the stream. -/
theorem readsAt_or_finish {source : String} {before after : List Token} {t : Token}
    (h : tokenize v source = before ++ t :: after) (hkind : t.kind.isIndentation = false) :
    (∃ more s, ReadsAt v (.start source) before t more s)
      ∨ ∃ body more s, Steps v (.start source) body s ∧ s.AtEnd ∧ before = body ++ more
        ∧ finish s.layout s.input.stop = more ++ t :: after := by
  obtain ⟨body, s, hsteps, hend⟩ := exists_steps_atEnd v (.start source)
  have htokens : body ++ finish s.layout s.input.stop = before ++ t :: after := by
    rw [← h, ← hend.run]
    exact hsteps.run.symm
  rcases List.append_eq_append_iff.1 htokens with ⟨more, hbefore, hfinish⟩ | ⟨more, hbody, hafter⟩
  · exact .inr ⟨body, more, s, hsteps, hend, hbefore, hfinish⟩
  · cases more with
    | nil =>
      rw [List.append_nil] at hbody
      exact .inr ⟨body, [], s, hsteps, hend, by rw [hbody, List.append_nil], hafter.symm⟩
    | cons u more =>
      obtain ⟨rfl, -⟩ := List.cons.inj hafter
      rw [hbody] at hsteps
      exact .inl ⟨more, s, hsteps.readsAt hkind⟩

/-- A word of a text is read inside a line. -/
theorem exists_readsAt {source : String} {before after : List Token} {t : Token}
    (h : tokenize v source = before ++ t :: after) (ht : t.kind.isWord = true) :
    ∃ more s, ReadsAt v (.start source) before t more s := by
  obtain ⟨hlayout, hindent⟩ := TokenKind.isWord_iff.1 ht
  refine (readsAt_or_finish h hindent).resolve_right ?_
  rintro ⟨body, more, s, -, -, -, hfinish⟩
  -- The tokens that end the stream are layout.
  rw [(mem_finish (hfinish ▸ List.mem_append_right more List.mem_cons_self)).2.1] at hlayout
  cases hlayout

/-- A word of a text is what stood at the front of the text when it was read. -/
theorem exists_front_of_mem_tokenize {source : String} {t : Token} (h : t ∈ tokenize v source)
    (ht : t.kind.isWord = true) : ∃ before first cs depth more,
      source.toList = before ++ first :: cs ∧ t.span.start = Text.byteSize before
      ∧ front v depth first cs = .token t.kind more
      ∧ t.text.toList = (first :: cs).take (more + 1) := by
  obtain ⟨before, after, htokens⟩ := List.append_of_mem h
  obtain ⟨-, -, l, i, first, cs, more, hbefore, hrest, hfront, hread, -⟩ :=
    exists_readsAt htokens ht
  obtain ⟨n, hn⟩ := hbefore.advances
  obtain rfl : i = Input.advance (.ofChars source.toList) n := hn
  refine ⟨source.toList.take n, first, cs, l.depth, more, ?_, ?_, hfront, ?_⟩
  · rw [← hrest]
    exact (List.take_append_drop n source.toList).symm
  · rw [hread]
    exact Nat.zero_add _
  · rw [hread, Input.token, String.toList_ofList, hrest]

/-! ### The start of a line -/

/-- Behind the blank lines no line is blank. -/
theorem not_blank_skipBlankLines (i : Input) {first : Char} {cs : List Char}
    (h : ((skipBlankLines i).skipWhile isMargin).rest = first :: cs) :
    first ≠ '\n' ∧ first ≠ '#' := by
  fun_induction skipBlankLines i with
  | case1 i n cs' hrest ih => exact ih h
  | case2 i n cs' hrest ih => exact ih h
  | case3 i n hother hno =>
    refine ⟨?_, ?_⟩
    · rintro rfl
      exact hother cs h
    · rintro rfl
      exact hno cs h

/-- Nothing is said of the indentation of a line that begins with a backslash. -/
theorem openLine_nil_or (l : Layout) (i : Input) :
    (openLine l i).1 = []
      ∨ ∃ first cs, (i.skipWhile isMargin).rest = first :: cs ∧ first ≠ '\\' := by
  simp only [openLine]
  split
  · exact .inl rfl
  · rename_i first cs hrest
    split
    · exact .inl rfl
    · rename_i hne
      exact .inr ⟨first, cs, hrest, fun h => hne (beq_iff_eq.2 h)⟩

/-- The layout is the same where the indentation of a line is not shown. -/
theorem openLine_layout_of_nil {l : Layout} {i : Input} (h : (openLine l i).1 = []) :
    (openLine l i).2.1 = l := by
  simp only [openLine] at h ⊢
  split
  · rfl
  · rename_i first cs hrest
    rw [hrest] at h
    split
    · rfl
    · rename_i hbackslash
      simp only [if_neg hbackslash] at h
      split
      · rename_i hdeeper
        rw [if_pos hdeeper] at h
        cases h
      · rename_i hdeeper
        rw [if_neg hdeeper] at h
        -- No block is closed.
        have hclosed : l.blocks.takeWhile (marginColumn i.rest < ·) = [] := by
          split at h
          · exact List.map_eq_nil_iff.1 h
          · exact absurd h (by simp)
        have hblocks := List.takeWhile_append_dropWhile
          (p := (marginColumn i.rest < ·)) (l := l.blocks)
        split at h
        · rename_i hcolumn
          rw [if_pos hcolumn, hclosed]
          rw [hclosed, List.nil_append] at hblocks
          rw [hblocks, List.isEmpty_nil, Bool.and_true]
        · exact absurd h (by simp)

/-- Without a token the layout stays. -/
theorem Steps.layout_of_nil (h : Steps v s [] s') : s'.layout = s.layout := by
  generalize hnone : ([] : List Token) = ts at h
  induction h with
  | refl s => rfl
  | step hstep _ ih =>
    obtain ⟨hts, hts'⟩ := List.append_eq_nil_iff.1 hnone.symm
    rw [ih hts'.symm]
    cases hstep with
    | opened l i => exact openLine_layout_of_nil hts
    | skipped _ _ => rfl
    | token _ _ => cases hts

/-- A word follows where the indentation of a line is shown. -/
theorem atWord_openLine {l : Layout} {i : Input} (h : (openLine l (skipBlankLines i)).1 ≠ []) :
    State.AtWord ⟨(openLine l (skipBlankLines i)).2.1, false,
      (openLine l (skipBlankLines i)).2.2⟩ := by
  rcases openLine_nil_or l (skipBlankLines i) with hnil | ⟨first, cs, hrest, hbackslash⟩
  · exact absurd hnil h
  · obtain ⟨hnewline, hcomment⟩ := not_blank_skipBlankLines i hrest
    have hmargin : isMargin first = false := not_of_drop_countWhile hrest
    refine ⟨rfl, first, cs, ?_, ?_⟩
    · show (openLine l (skipBlankLines i)).2.2.rest = _
      rw [openLine_input, hrest]
    · simp [startsWord, hmargin, hnewline, hcomment, hbackslash]

end Lexer

end PyAtlas
