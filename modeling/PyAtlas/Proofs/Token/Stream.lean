import PyAtlas.Proofs.Token.Steps

/-!
# Well-formed streams

The steps of the lexer tell in which order tokens come. `WellPlaced` says so for the tokens that are
still to come, given the number of open brackets and whether the indentation of a line was just
shown. Beside the order there is the count: no block is closed that was not opened, and at the end
none is open.

## Key definitions
- `WellPlaced`: lines end, and blocks begin and end, outside of brackets only, and a word follows
  where indentation is shown.
- `WellFormedStream`: how the stream of a text is made up.

## Key results
- `Lexer.Step.wellPlaced`, `Lexer.Steps.wellPlaced`: the lexer keeps to the order.
- `Laid.kindCount_dedent`, `Laid.kindCount_le`, `Laid.kindCount_eq`: how indents and dedents are
  counted.
- `tokenize_wellFormed`: the stream of every text is well formed.
-/

namespace PyAtlas

/-! ### The order of tokens -/

/-- With `depth` brackets open, the tokens come in order: lines end, and their indentation is shown,
    outside of brackets only. If `due` says that the indentation of a line was just shown, a word
    comes before the line ends. -/
inductive WellPlaced : (depth : Nat) → (due : Bool) → List Token → Prop
  | done {depth : Nat} : WellPlaced depth false []
  | newline {t : Token} {ts : List Token} :
    t.kind = .newline → WellPlaced 0 false ts → WellPlaced 0 false (t :: ts)
  | indentation {due : Bool} {t : Token} {ts : List Token} :
    t.kind.isIndentation = true → WellPlaced 0 true ts → WellPlaced 0 due (t :: ts)
  | word {depth : Nat} {due : Bool} {t : Token} {ts : List Token} :
    t.kind.isWord = true → WellPlaced (bracketsAfter depth t) false ts → WellPlaced depth due (t :: ts)

namespace WellPlaced

variable {depth : Nat} {due : Bool} {t : Token} {before after ts : List Token}

/-- The tokens that show the indentation of a line. -/
theorem append (hts : ∀ t ∈ ts, t.kind.isIndentation = true) (hne : ts ≠ [])
    (h : WellPlaced 0 true after) : WellPlaced 0 due (ts ++ after) := by
  induction ts generalizing due with
  | nil => exact absurd rfl hne
  | cons t ts ih =>
    obtain ⟨ht, hts⟩ := List.forall_mem_cons.1 hts
    refine .indentation ht ?_
    cases ts with
    | nil => exact h
    | cons t' ts => exact ih hts (List.cons_ne_nil t' ts)

/-- Tokens in order behind some of them. -/
theorem of_append (h : WellPlaced depth due (before ++ t :: after)) :
    ∃ due', WellPlaced (before.foldl bracketsAfter depth) due' (t :: after) := by
  induction before generalizing depth due with
  | nil => exact ⟨due, h⟩
  | cons u before ih =>
    rw [List.cons_append] at h
    cases h with
    | newline hk h =>
      have hdepth : bracketsAfter 0 u = 0 := by rw [bracketsAfter, hk]
      rw [List.foldl_cons, hdepth]
      exact ih h
    | indentation hk h =>
      rw [List.foldl_cons, bracketsAfter_of_isIndentation hk]
      exact ih h
    | word hk h => exact ih h

/-- A word is due and comes, behind more tokens about indentation at most. -/
theorem exists_word (h : WellPlaced depth true ts) :
    ∃ more u later, ts = more ++ u :: later ∧ (∀ m ∈ more, m.kind.isIndentation = true)
      ∧ u.kind.isWord = true := by
  induction ts generalizing depth with
  | nil => cases h
  | cons t ts ih =>
    cases h with
    | word hk _ => exact ⟨[], t, ts, rfl, fun _ hm => (nomatch hm), hk⟩
    | indentation hk h =>
      obtain ⟨more, u, later, rfl, hmore, hu⟩ := ih h
      exact ⟨t :: more, u, later, rfl, List.forall_mem_cons.2 ⟨hk, hmore⟩, hu⟩

theorem depth_eq_zero (h : WellPlaced depth due (t :: ts)) (ht : t.kind.isWord = false) :
    depth = 0 := by
  cases h with
  | newline _ _ => rfl
  | indentation _ _ => rfl
  | word hk _ => rw [ht] at hk; cases hk

theorem exists_word_of_isIndentation (h : WellPlaced depth due (t :: ts))
    (ht : t.kind.isIndentation = true) :
    ∃ more u later, ts = more ++ u :: later ∧ (∀ m ∈ more, m.kind.isIndentation = true)
      ∧ u.kind.isWord = true := by
  cases h with
  | newline hk _ => rw [hk] at ht; cases ht
  | indentation _ h => exact h.exists_word
  | word hk _ => rw [TokenKind.isWord, ht, Bool.not_true, Bool.and_false] at hk; cases hk

end WellPlaced

namespace Lexer

variable {v : Version} {s s' : State} {ts : List Token}

/-- What stands at the front inside a line is a word, the end of the line, or passed over. -/
theorem front_isWord {v : Version} {depth more : Nat} {first : Char} {cs : List Char}
    {kind : TokenKind} (h : front v depth first cs = .token kind more) :
    kind.isWord = true ∨ kind = .newline ∧ first = '\n' ∧ depth = 0 := by
  have hoperators : ∀ entry ∈ operators, entry.2.isWord = true := by decide
  cases frontToken_of_front h with
  | newline hfirst hdepth => exact .inr ⟨rfl, hfirst, hdepth⟩
  | operator hentry _ => exact .inl (hoperators _ hentry)
  | _ => exact .inl rfl

/-- Where a word begins nothing is passed over. -/
theorem not_skipped_of_startsWord {v : Version} {depth more : Nat} {first : Char} {cs : List Char}
    (h : startsWord first = true) : front v depth first cs ≠ .skipped more := by
  intro hskipped
  obtain ⟨hmargin, hnewline, hcomment, hbackslash⟩ := startsWord_iff.1 h
  rcases front_eq_skipped hskipped with ⟨hfirst, -⟩ | ⟨hfirst, -⟩ | ⟨hfirst, -⟩ | ⟨hfirst, -⟩
  · rw [hmargin] at hfirst
    cases hfirst
  · exact hnewline hfirst
  · exact hcomment hfirst
  · exact hbackslash hfirst

/-- Where a word is next nothing is passed over. -/
theorem Steps.eq_of_atWord (h : Steps v s [] s') (hs : s.AtWord) : s' = s := by
  generalize hnone : ([] : List Token) = ts at h
  cases h with
  | refl s => rfl
  | step hstep _ =>
    obtain ⟨hfresh, first, cs, hrest, hstarts⟩ := hs
    cases hstep with
    | opened l i => cases hfresh
    | token _ _ => cases hnone
    | skipped hrest' hfront =>
      cases hrest.symm.trans hrest'
      exact absurd hfront (not_skipped_of_startsWord hstarts)

/-- A token inside a line is a word or the end of the line. -/
theorem ReadsAt.isWord_or {before after : List Token} {t : Token}
    (h : ReadsAt v s before t after s') : t.kind.isWord = true ∨ t.kind = .newline := by
  obtain ⟨l, i, first, cs, more, -, -, hfront, -⟩ := h
  exact (front_isWord hfront).imp_right And.left

/-- Behind a token that shows the indentation of a line a word is next. -/
theorem Steps.atWord_of_isIndentation (h : Steps v s ts s') {u : Token} (hu : ts.getLast? = some u)
    (hkind : u.kind.isIndentation = true) : s'.AtWord := by
  induction h with
  | refl s => cases hu
  | @step s s₁ s' ts ts' hstep hsteps ih =>
    cases hts : ts'.getLast? with
    | some u' =>
      rw [List.getLast?_append, hts] at hu
      cases hu
      exact ih hts
    | none =>
      obtain rfl := List.getLast?_eq_none_iff.1 hts
      rw [List.append_nil] at hu
      have hword : s₁.AtWord := by
        cases hstep with
        | opened l i =>
          refine atWord_openLine fun hnil => ?_
          rw [hnil] at hu
          cases hu
        | skipped _ _ => cases hu
        | token hrest hfront =>
          cases hu
          rcases front_isWord hfront with hword | ⟨rfl, -⟩
          · exact absurd hkind (Bool.eq_false_iff.1 (TokenKind.isWord_iff.1 hword).2)
          · cases hkind
      rwa [hsteps.eq_of_atWord hword]

theorem Step.lineOutside (h : Step v s ts s') : s'.LineOutside := by
  cases h with
  | opened l i => exact fun hfresh => nomatch hfresh
  | skipped _ _ => exact fun hfresh => nomatch hfresh
  | @token l i first cs kind more _ hfront =>
    intro hfresh
    have hkind : kind = .newline := beq_iff_eq.1 hfresh
    rcases front_isWord hfront with hword | ⟨-, -, hdepth⟩
    · rw [hkind] at hword
      cases hword
    · rw [hkind]
      exact hdepth

theorem Steps.lineOutside (h : Steps v s ts s') (hs : s.LineOutside) : s'.LineOutside := by
  induction h with
  | refl s => exact hs
  | step hstep _ ih => exact ih hstep.lineOutside

/-- A step keeps to the order, if the tokens after it do. -/
theorem Step.wellPlaced (h : Step v s ts s') (hs : s.LineOutside) {rest : List Token}
    (hrest : ∀ due, (due = true → s'.AtWord) → WellPlaced s'.layout.depth due rest) {due : Bool}
    (hdue : due = true → s.AtWord) : WellPlaced s.layout.depth due (ts ++ rest) := by
  have hfalse : ∀ due, (due = true → False) → due = false := fun due h => Bool.eq_false_iff.2 h
  cases h with
  | opened l i =>
    -- The indentation of a line is not settled twice.
    obtain rfl : due = false := hfalse due fun h => nomatch (hdue h).1
    have hdepth : l.depth = 0 := hs rfl
    show WellPlaced l.depth false ((openLine l (skipBlankLines i)).1 ++ rest)
    have hopened : ∀ due, (due = true → _) → WellPlaced l.depth due rest :=
      depth_openLine l (skipBlankLines i) ▸ hrest
    rw [hdepth] at hopened ⊢
    by_cases hnil : (openLine l (skipBlankLines i)).1 = []
    · rw [hnil]
      exact hopened false (fun h => nomatch h)
    · exact .append (fun t => isIndentation_of_mem_openLine) hnil
        (hopened true fun _ => atWord_openLine hnil)
  | @skipped l i first cs more hfirst hfront =>
    obtain rfl : due = false := hfalse due fun h => by
      obtain ⟨-, first', cs', hrest', hstarts⟩ := hdue h
      cases hfirst.symm.trans hrest'
      exact not_skipped_of_startsWord hstarts hfront
    exact hrest false (fun h => nomatch h)
  | @token l i first cs kind more hfirst hfront =>
    have hafter := hrest false (fun h => nomatch h)
    rcases front_isWord hfront with hword | ⟨rfl, rfl, hdepth⟩
    · have hcount : (l.after kind).depth = bracketsAfter l.depth (i.token kind (more + 1)) := by
        cases kind <;> rfl
      refine .word hword ?_
      rw [← hcount]
      exact hafter
    · obtain rfl : due = false := hfalse due fun h => by
        obtain ⟨-, first', cs', hrest', hstarts⟩ := hdue h
        cases hfirst.symm.trans hrest'
        exact Bool.false_ne_true hstarts
      have hclosed : (l.after .newline).depth = 0 := hdepth
      show WellPlaced l.depth false (_ :: rest)
      rw [hdepth]
      refine .newline rfl ?_
      rw [← hclosed]
      exact hafter

/-- The tokens up to the end of the text come in order, if a word is next where one is due. -/
theorem Steps.wellPlaced_of_atWord (h : Steps v s ts s') (hs : s.LineOutside) (hend : s'.AtEnd) :
    ∀ due, (due = true → s.AtWord) → WellPlaced s.layout.depth due ts := by
  induction h with
  | refl s =>
    rintro due hdue
    cases due with
    | false => exact .done
    | true =>
      obtain ⟨-, first, cs, hrest, -⟩ := hdue rfl
      rw [hend.2] at hrest
      cases hrest
  | step hstep _ ih => exact fun due => hstep.wellPlaced hs (ih hstep.lineOutside hend)

theorem Steps.wellPlaced (h : Steps v s ts s') (hs : s.LineOutside) (hend : s'.AtEnd) :
    WellPlaced s.layout.depth false ts :=
  h.wellPlaced_of_atWord hs hend false fun hdue => absurd hdue Bool.false_ne_true

end Lexer

/-! ### Lines and blocks of a stream -/

/-- The number of tokens of a kind. -/
def kindCount (kind : TokenKind) (ts : List Token) : Nat :=
  ts.countP (·.kind == kind)

theorem kindCount_cons_self {kind : TokenKind} {t : Token} (h : t.kind = kind) (ts : List Token) :
    kindCount kind (t :: ts) = kindCount kind ts + 1 :=
  List.countP_cons_of_pos (beq_iff_eq.2 h)

theorem kindCount_cons_of_ne {kind : TokenKind} {t : Token} (h : t.kind ≠ kind) (ts : List Token) :
    kindCount kind (t :: ts) = kindCount kind ts :=
  List.countP_cons_of_neg fun heq => h (beq_iff_eq.1 heq)

theorem kindCount_append (kind : TokenKind) (ts ts' : List Token) :
    kindCount kind (ts ++ ts') = kindCount kind ts + kindCount kind ts' :=
  List.countP_append

namespace Laid

variable {mid : Bool} {k : Nat} {before after ts : List Token}

/-- The dedents of some tokens close blocks that were open or that their indents open, and at the
    end all are closed. -/
theorem kindCount_dedent (h : Laid mid k (before ++ after)) :
    kindCount .dedent before ≤ k + kindCount .indent before
      ∧ (after = [] → kindCount .dedent before = k + kindCount .indent before) := by
  induction before generalizing mid k with
  | nil =>
    refine ⟨Nat.zero_le _, ?_⟩
    rintro rfl
    cases h
    rfl
  | cons t before ih =>
    rw [List.cons_append] at h
    have hne : ∀ kind kind' : TokenKind, t.kind = kind → kind ≠ kind' → t.kind ≠ kind' := by
      rintro kind kind' rfl
      exact id
    cases h with
    | newline hk h =>
      rw [kindCount_cons_of_ne (hne _ _ hk TokenKind.noConfusion),
        kindCount_cons_of_ne (hne _ _ hk TokenKind.noConfusion)]
      exact ih h
    | indent hk h =>
      obtain ⟨hle, heq⟩ := ih h
      rw [kindCount_cons_of_ne (hne _ _ hk TokenKind.noConfusion), kindCount_cons_self hk]
      exact ⟨by omega, fun hnil => by have := heq hnil; omega⟩
    | dedent hk h =>
      obtain ⟨hle, heq⟩ := ih h
      rw [kindCount_cons_self hk, kindCount_cons_of_ne (hne _ _ hk TokenKind.noConfusion)]
      exact ⟨by omega, fun hnil => by have := heq hnil; omega⟩
    | plain hk h =>
      have hlayout : ∀ kind : TokenKind, kind.isLayout = true → t.kind ≠ kind := by
        rintro kind hkind rfl
        rw [hk] at hkind
        cases hkind
      rw [kindCount_cons_of_ne (hlayout _ rfl), kindCount_cons_of_ne (hlayout _ rfl)]
      exact ih h

/-- Behind the last token that is no dedent there is no open line: it is a newline, or it opens a
    block. -/
theorem exists_last (h : Laid mid k ts) :
    (∀ t ∈ ts, t.kind = .dedent)
      ∨ ∃ lines t dedents, ts = lines ++ t :: dedents ∧ (t.kind = .newline ∨ t.kind = .indent)
        ∧ ∀ d ∈ dedents, d.kind = .dedent := by
  induction h with
  | done => exact .inl fun _ h => nomatch h
  | @newline mid k t ts hk _ ih =>
    rcases ih with hall | ⟨lines, u, dedents, rfl, hu, hdedents⟩
    · exact .inr ⟨[], t, ts, rfl, .inl hk, hall⟩
    · exact .inr ⟨t :: lines, u, dedents, rfl, hu, hdedents⟩
  | @indent k t ts hk _ ih =>
    rcases ih with hall | ⟨lines, u, dedents, rfl, hu, hdedents⟩
    · exact .inr ⟨[], t, ts, rfl, .inr hk, hall⟩
    · exact .inr ⟨t :: lines, u, dedents, rfl, hu, hdedents⟩
  | @dedent k t ts hk _ ih =>
    rcases ih with hall | ⟨lines, u, dedents, rfl, hu, hdedents⟩
    · exact .inl (List.forall_mem_cons.2 ⟨hk, hall⟩)
    · exact .inr ⟨t :: lines, u, dedents, rfl, hu, hdedents⟩
  | @plain mid k t ts _ h ih =>
    rcases ih with hall | ⟨lines, u, dedents, rfl, hu, hdedents⟩
    · -- The line of the word is still to be ended.
      obtain ⟨u, hu, hnewline⟩ := h.exists_newline
      rw [hall u hu] at hnewline
      cases hnewline
    · exact .inr ⟨t :: lines, u, dedents, rfl, hu, hdedents⟩

variable {size : Nat}

/-- A layout and the end of the input behind it. -/
theorem kindCount_eq (h : Laid false 0 ts) :
    kindCount .dedent (ts ++ [Token.endOfInput size])
      = kindCount .indent (ts ++ [Token.endOfInput size]) := by
  rw [← List.append_nil ts] at h
  have heq := h.kindCount_dedent.2 rfl
  rw [Nat.zero_add] at heq
  rw [kindCount_append, kindCount_append, heq]
  rfl

theorem kindCount_le (h : Laid false 0 ts) (hbefore : before <+: ts ++ [Token.endOfInput size]) :
    kindCount .dedent before ≤ kindCount .indent before := by
  rcases List.prefix_concat_iff.1 hbefore with rfl | ⟨rest, rfl⟩
  · exact Nat.le_of_eq h.kindCount_eq
  · have hle := h.kindCount_dedent.1
    rwa [Nat.zero_add] at hle

theorem kindCount_eof (h : Laid false 0 ts) : kindCount .eof (ts ++ [Token.endOfInput size]) = 1 := by
  have hnone : kindCount .eof ts = 0 := by
    refine List.countP_eq_zero.2 fun t ht heof => ?_
    exact h.forall_kind_ne_eof t ht (beq_iff_eq.1 heof)
  rw [kindCount_append, hnone]
  rfl

end Laid

/-! ### The stream of a text -/

/-- How a stream of tokens is made up that the lexer yields for a text. Each field is about what its
    name says; `body` are the tokens up to the end of the text, and all others are at its end. -/
structure WellFormedStream (v : Version) (source : String) (ts : List Token) : Prop where
  /-- The lexer comes to the end of the text, and up to there lines end, and blocks begin and end,
      outside of brackets only, and a word follows where indentation is shown. -/
  body : ∃ body s, Lexer.Steps v (.start source) body s ∧ s.AtEnd
    ∧ ts = body ++ Lexer.finish s.layout source.utf8ByteSize
    ∧ (∀ t ∈ Lexer.finish s.layout source.utf8ByteSize,
      t.span = ⟨source.utf8ByteSize, source.utf8ByteSize⟩)
    ∧ ∀ before t after, body = before ++ t :: after →
      (t.kind.isWord = false → bracketsLeftOpen before = 0)
      ∧ (t.kind.isIndentation = true → ∃ more u later, after = more ++ u :: later
        ∧ (∀ m ∈ more, m.kind.isIndentation = true) ∧ u.kind.isWord = true)
  /-- The last line has ended, then all blocks, and then the input. -/
  closed : ts = [Token.endOfInput source.utf8ByteSize]
    ∨ ∃ lines newline dedents,
      ts = lines ++ newline :: dedents ++ [Token.endOfInput source.utf8ByteSize]
      ∧ newline.kind = .newline ∧ ∀ d ∈ dedents, d.kind = .dedent
  oneEnd : kindCount .eof ts = 1
  dedents_le : ∀ before after, ts = before ++ after →
    kindCount .dedent before ≤ kindCount .indent before
  dedents_eq : kindCount .dedent ts = kindCount .indent ts
  /-- At every step the open blocks stand at ever greater columns, and the lexer counts the brackets
      that are open. -/
  states : ∀ produced s, Lexer.Steps v (.start source) produced s →
    s.Ascending ∧ s.layout.depth = bracketsLeftOpen produced ∧ ∃ later, ts = produced ++ later

/-- An indent is not the last token of a text but for dedents: a word follows it. -/
theorem Lexer.not_indent_of_last {v : Version} {s s' : State} {body lines dedents : List Token}
    {size : Nat} {t : Token} (h : Steps v s body s') (hs : s.LineOutside) (hend : s'.AtEnd)
    (heq : body ++ finish s'.layout size = lines ++ t :: dedents ++ [Token.endOfInput size])
    (hdedents : ∀ d ∈ dedents, d.kind = .dedent) : t.kind ≠ .indent := by
  intro ht
  rw [List.append_assoc, List.cons_append] at heq
  rcases List.append_eq_append_iff.1 heq with ⟨closing, -, hclosing⟩ | ⟨later, hbody, hlater⟩
  · -- The tokens at the end open no block.
    have hmem : t ∈ finish s'.layout size := by
      rw [hclosing]
      exact List.mem_append_right _ List.mem_cons_self
    exact (mem_finish hmem).2.2 ht
  · cases later with
    | nil =>
      have hmem : t ∈ finish s'.layout size := by
        rw [← List.nil_append (finish _ _), ← hlater]
        exact List.mem_cons_self
      exact (mem_finish hmem).2.2 ht
    | cons u later =>
      rw [List.cons_append, List.cons.injEq] at hlater
      obtain ⟨rfl, hlater⟩ := hlater
      have hplaced := h.wellPlaced hs hend
      rw [hbody] at hplaced
      obtain ⟨due, hrest⟩ := hplaced.of_append
      obtain ⟨more, word, behind, rfl, -, hword⟩ :=
        hrest.exists_word_of_isIndentation (by rw [ht]; rfl)
      -- The word would be one of the dedents.
      have hmem : word ∈ dedents ++ [Token.endOfInput size] := by
        rw [hlater]
        simp
      rcases List.mem_append.1 hmem with hmem | hmem
      · rw [hdedents word hmem] at hword
        cases hword
      · rw [List.mem_singleton.1 hmem] at hword
        cases hword

open Lexer in
/-- The lexer stops, since each step leaves less to do, and the tokens of a text are a well-formed
    stream. -/
theorem tokenize_wellFormed (v : Version) (source : String) :
    (∀ s ts s', Step v s ts s' → s'.size < s.size)
      ∧ WellFormedStream v source (tokenize v source) := by
  refine ⟨fun _ _ _ => Step.size_lt, ?_⟩
  obtain ⟨main, hmain, hlaid⟩ := tokenize_laid v source
  obtain ⟨body, s, hsteps, hend⟩ := exists_steps_atEnd v (.start source)
  have hstart : (State.start source).LineOutside := fun _ => rfl
  have hstop : s.input.stop = source.utf8ByteSize := by
    rw [hsteps.stop, State.start, Input.stop, Input.ofChars, Nat.zero_add, Text.byteSize_toList]
  have htokens : tokenize v source = body ++ finish s.layout source.utf8ByteSize := by
    rw [← hstop, ← hend.run]
    exact hsteps.run
  constructor
  · refine ⟨body, s, hsteps, hend, htokens, fun t ht => (mem_finish ht).1, ?_⟩
    rintro before t after rfl
    have hplaced := hsteps.wellPlaced hstart hend
    obtain ⟨due, hrest⟩ := hplaced.of_append
    exact ⟨hrest.depth_eq_zero, hrest.exists_word_of_isIndentation⟩
  · -- Outside of all blocks there is no dedent, and a block that has begun has a line.
    rcases hlaid.exists_last with hall | ⟨lines, t, dedents, rfl, ht, hdedents⟩
    · left
      cases main with
      | nil => exact hmain
      | cons t main => exact absurd (hall t List.mem_cons_self) hlaid.kind_ne_dedent_of_zero
    · right
      have hne := not_indent_of_last hsteps hstart hend (htokens.symm.trans hmain) hdedents
      exact ⟨lines, t, dedents, hmain, ht.resolve_right hne, hdedents⟩
  · rw [hmain]
    exact hlaid.kindCount_eof
  · intro before after heq
    have hbefore : before <+: tokenize v source := ⟨after, heq.symm⟩
    rw [hmain] at hbefore
    exact hlaid.kindCount_le hbefore
  · rw [hmain]
    exact hlaid.kindCount_eq
  · intro produced s' h
    refine ⟨h.ascending (List.pairwise_singleton _ _), h.depth, s'.run v, ?_⟩
    exact h.run

end PyAtlas
