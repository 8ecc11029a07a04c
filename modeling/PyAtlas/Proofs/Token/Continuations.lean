import PyAtlas.Proofs.Token.Arrangement
import PyAtlas.Proofs.Token.Interruption
import PyAtlas.Proofs.Token.Stream

/-!
# Continued lines

A backslash and a line feed in front of a word hide the end of the line: the tokens are the same as
without the two, and only their places move. This is so wherever the word stands inside its line. At
the start of a line the lexer does not measure the indentation of a line that begins with a
backslash, so the tokens that show the indentation of the line are lost, if there are any.

The lexer takes the same steps in both texts up to the place of the word. `Steps.interrupted` says
so, with the tokens that are lost where a line begins at that place.

## Key definitions
- `continuedAt`: a text with a backslash and a line feed at some place.
- `Token.label`: what a token is, with the names of identifiers.

## Key results
- `Lexer.Steps.interrupted`: the steps up to a word that a continuation stands before.
- `Lexer.run_continuation`, `Lexer.exists_continued`: the tokens of a text with a continuation.
- `continued_before_word_iff`: where a continuation changes nothing but places.
-/

namespace PyAtlas

/-- The text with a backslash and a line feed at some place. -/
def continuedAt (source : String) (offset : Nat) : String :=
  (Span.mk 0 offset).text source ++ "\\\n" ++ (Span.mk offset source.utf8ByteSize).text source

/-- What a token is: its kind, and the name of an identifier. -/
def Token.label (t : Token) : TokenKind × String :=
  (t.kind, if t.kind = .identifier then t.text else "")

theorem toList_continuedAt {source : String} {front back : List Char}
    (h : source.toList = front ++ back) :
    (continuedAt source (Text.byteSize front)).toList = front ++ '\\' :: '\n' :: back := by
  have hfront : (Span.mk 0 (Text.byteSize front)).text source = String.ofList front :=
    Span.text_eq [] front back h rfl rfl
  have hback : (Span.mk (Text.byteSize front) source.utf8ByteSize).text source
      = String.ofList back :=
    Span.text_eq front back [] (by rw [h, List.append_nil]) rfl
      (by rw [← h, Text.byteSize_toList])
  rw [continuedAt, hfront, hback, String.toList_append, String.toList_append, String.toList_ofList,
    String.toList_ofList, String.toList_ofList, List.append_assoc]
  rfl

namespace Lexer

variable {v : Version} {s s' : State} {ts : List Token}

/-! ### The start of a line -/

/-- How a line begins is told by its margin and its first character. -/
theorem openLine_congr (l : Layout) (offset : Nat) {margin : List Char} {d : Char}
    (hmargin : ∀ c ∈ margin, isMargin c = true) (hd : isMargin d = false) (cs cs' : List Char) :
    openLine l ⟨offset, margin ++ d :: cs⟩
      = ((openLine l ⟨offset, margin ++ d :: cs'⟩).1, (openLine l ⟨offset, margin ++ d :: cs'⟩).2.1,
        ⟨offset + Text.byteSize margin, d :: cs⟩) := by
  have hbody := skipWhile_margin hmargin hd offset
  have htake := takeWhile_margin hmargin hd
  have hcount : ∀ cs, countWhile isMargin (margin ++ d :: cs) = margin.length :=
    fun cs => congrArg List.length (htake cs)
  have htoken : ∀ cs, Input.token ⟨offset, margin ++ d :: cs⟩ .indent margin.length
      = ⟨.indent, ⟨offset, offset + Text.byteSize margin⟩, String.ofList margin⟩ := by
    intro cs
    simp [Input.token, Input.advance_append]
  have hdedent : ∀ cs, Input.token ⟨offset + Text.byteSize margin, d :: cs⟩ .dedent 0
      = ⟨.dedent, ⟨offset + Text.byteSize margin, offset + Text.byteSize margin⟩, ""⟩ := by
    intro cs
    simp [Input.token, Input.advance]
  simp only [openLine, hbody, hcount, htoken, hdedent, marginColumn, htake]
  split
  · rfl
  · split
    · rfl
    · split <;> rfl

/-! ### The same steps in both texts -/

/-- What is read inside a line, up to some place or before it, if a continuation stands there. -/
theorem front_continued {l : Layout} {i : Input} {first c : Char} {cs : List Char} {more : Nat}
    {a a' b : List Char} (hc : c ≠ '\n') (hrest : i.rest = first :: cs)
    (ha : i.rest = a ++ c :: b) (hmore : (front v l.depth first cs).more = more)
    (ha' : (i.advance (more + 1)).rest = a' ++ c :: b) : ∃ cs',
      a ++ '\\' :: '\n' :: c :: b = first :: cs'
      ∧ front v l.depth first cs' = front v l.depth first cs
      ∧ Input.advance ⟨i.offset, a ++ '\\' :: '\n' :: c :: b⟩ (more + 1)
        = ⟨(i.advance (more + 1)).offset, a' ++ '\\' :: '\n' :: c :: b⟩
      ∧ ∀ kind, Input.token ⟨i.offset, a ++ '\\' :: '\n' :: c :: b⟩ kind (more + 1)
        = i.token kind (more + 1) := by
  have hlength : (i.rest.take (more + 1)).length = more + 1 := by
    have hpos := congrArg List.length ha'
    rw [Input.length_rest_advance, List.length_append, List.length_cons] at hpos
    rw [List.length_take]
    omega
  obtain rfl : a = i.rest.take (more + 1) ++ a' := by
    have hsplit : i.rest = i.rest.take (more + 1) ++ a' ++ c :: b := by
      rw [List.append_assoc, ← ha']
      exact (List.take_append_drop _ _).symm
    exact List.append_cancel_right (ha.symm.trans hsplit)
  rw [List.append_assoc]
  have hadvance : Input.advance ⟨i.offset, i.rest.take (more + 1)
      ++ (a' ++ '\\' :: '\n' :: c :: b)⟩ (more + 1)
        = ⟨(i.advance (more + 1)).offset, a' ++ '\\' :: '\n' :: c :: b⟩ := by
    have happend := Input.advance_append i.offset (i.rest.take (more + 1))
      (a' ++ '\\' :: '\n' :: c :: b)
    rwa [hlength] at happend
  refine ⟨cs.take more ++ (a' ++ '\\' :: '\n' :: c :: b), ?_, ?_, hadvance, fun kind => ?_⟩
  · rw [hrest, List.take_succ_cons, List.cons_append]
  · have hcs : cs = cs.take more ++ a' ++ c :: b := by
      rw [hrest, List.take_succ_cons, List.cons_append, List.cons_append] at ha
      exact (List.cons.inj ha).2
    rw [hrest, List.take_succ_cons, List.length_cons] at hlength
    rw [← List.append_assoc, front_interrupted ('\n' :: c :: b) v l.depth first hc, ← hcs]
    rw [← hcs, hmore, List.length_append]
    omega
  · rw [Input.token, hadvance, Input.token, List.take_left' hlength]

/-- Steps lead to a smaller state, if there are any. -/
theorem Steps.eq_or_size_lt (h : Steps v s ts s') : ts = [] ∧ s' = s ∨ s'.size < s.size := by
  induction h with
  | refl s => exact .inl ⟨rfl, rfl⟩
  | step hstep _ ih =>
    have hless := hstep.size_lt
    rcases ih with ⟨-, rfl⟩ | ih
    · exact .inr hless
    · exact .inr (Nat.lt_trans ih hless)

/-- Tokens that satisfy a condition at their end, behind others. -/
theorem getLast?_append_of {ts ts' : List Token} {p : Token → Prop}
    (hts : ts' = [] → ∀ u ∈ ts.getLast?, p u) (hts' : ∀ u ∈ ts'.getLast?, p u) :
    ∀ u ∈ (ts ++ ts').getLast?, p u := by
  cases ts' with
  | nil =>
    rw [List.append_nil]
    exact hts rfl
  | cons t ts' =>
    rw [List.getLast?_append, List.getLast?_cons]
    rwa [List.getLast?_cons] at hts'

/-- The step that settles how a line begins, if a continuation stands at some place behind it. -/
theorem Step.opened_continued {l : Layout} {i : Input} {c : Char} {a a' b : List Char}
    (ha : i.rest = a ++ c :: b)
    (ha' : (openLine l (skipBlankLines i)).2.2.rest = a' ++ c :: b) :
    Step v ⟨l, true, ⟨i.offset, a ++ '\\' :: '\n' :: c :: b⟩⟩
      (if a' = [] then [] else (openLine l (skipBlankLines i)).1)
      ⟨if a' = [] then l else (openLine l (skipBlankLines i)).2.1, false,
        ⟨(openLine l (skipBlankLines i)).2.2.offset, a' ++ '\\' :: '\n' :: c :: b⟩⟩ := by
  rw [openLine_input] at ha' ⊢
  -- The text up to the place: blank lines, a margin, and what stands behind it.
  have hsplit := rest_eq_margin (skipBlankLines i)
  have hne : (skipBlankLines i).rest ≠ [] := by
    intro hnil
    rw [ha', hnil] at hsplit
    simp at hsplit
  obtain ⟨blank, hblank, hlines, hstart⟩ := exists_wordlessLines i hne
  have hmargin : ∀ c ∈ (skipBlankLines i).rest.take (countWhile isMargin (skipBlankLines i).rest),
      isMargin c = true := fun c => of_mem_take_countWhile
  have hoffset : ((skipBlankLines i).skipWhile isMargin).offset = i.offset + Text.byteSize (blank
      ++ (skipBlankLines i).rest.take (countWhile isMargin (skipBlankLines i).rest)) := by
    rw [Text.byteSize_append, ← Nat.add_assoc, ← hstart]
    rfl
  generalize (skipBlankLines i).rest.take (countWhile isMargin (skipBlankLines i).rest) = margin
    at hsplit hmargin hoffset
  rw [ha'] at hsplit
  obtain rfl : a = blank ++ (margin ++ a') := by
    rw [hlines, hsplit, ← List.append_assoc margin, ← List.append_assoc] at ha
    exact (List.append_cancel_right ha).symm
  have hopened := Step.opened (v := v) l
    ⟨i.offset, blank ++ (margin ++ (a' ++ '\\' :: '\n' :: c :: b))⟩
  rw [skipBlankLines_wordlessLines hblank] at hopened
  rw [hoffset, List.append_assoc, List.append_assoc]
  cases a' with
  | nil =>
    rw [List.nil_append, skipBlankLines_margin hmargin rfl (by decide) (by decide),
      openLine_backslash l hmargin, Nat.add_assoc, ← Text.byteSize_append] at hopened
    exact hopened
  | cons d a' =>
    -- The line begins with the same character.
    have hd : isMargin d = false := not_of_drop_countWhile ha'
    obtain ⟨hfeed, hcomment⟩ := not_blank_skipBlankLines i ha'
    have hsame := openLine_congr l (i.offset + Text.byteSize blank) hmargin hd
      (a' ++ '\\' :: '\n' :: c :: b) (a' ++ c :: b)
    have hinput : skipBlankLines i
        = ⟨i.offset + Text.byteSize blank, margin ++ d :: (a' ++ c :: b)⟩ := by
      rw [← hstart, ← List.cons_append, ← hsplit]
    rw [List.cons_append, skipBlankLines_margin hmargin hd hfeed hcomment, hsame, Nat.add_assoc,
      ← Text.byteSize_append, ← hinput] at hopened
    exact hopened

/-- The steps to a place in a line, if a continuation stands there. They yield the same tokens, but
    for the tokens `lost` that show the indentation of a line which begins at that place. -/
theorem Steps.interrupted (h : Steps v s ts s') {c : Char} {b : List Char} (hc : c ≠ '\n')
    (hfresh : s'.fresh = false) (hrest : s'.input.rest = c :: b) (a : List Char)
    (ha : s.input.rest = a ++ c :: b) : ∃ kept lost l, ts = kept ++ lost
      ∧ Steps v ⟨s.layout, s.fresh, ⟨s.input.offset, a ++ '\\' :: '\n' :: c :: b⟩⟩ kept
        ⟨l, false, ⟨s'.input.offset, '\\' :: '\n' :: c :: b⟩⟩
      ∧ l.depth = s'.layout.depth ∧ (lost = [] → l = s'.layout)
      ∧ (∀ u ∈ lost, u.kind.isIndentation = true)
      ∧ (lost = [] → ∀ u ∈ ts.getLast?, u.kind.isIndentation = false) := by
  induction h generalizing a with
  | refl s =>
    obtain rfl : a = [] := by
      rw [hrest] at ha
      exact (List.append_cancel_right (ha.symm.trans (List.nil_append _).symm))
    obtain ⟨l, fresh, i⟩ := s
    obtain rfl : fresh = false := hfresh
    exact ⟨[], [], l, rfl, .refl _, rfl, fun _ => rfl, nofun, fun _ => nofun⟩
  | @step s s₁ s' ts ts' hstep hsteps ih =>
    -- The place is behind the first step.
    obtain ⟨a', ha'⟩ : ∃ a', s₁.input.rest = a' ++ c :: b := by
      obtain ⟨n, hn⟩ := hsteps.advances
      rw [← hrest, hn]
      exact ⟨_, (List.take_append_drop n _).symm⟩
    obtain ⟨kept, lost, l', hts', hkept, hdepth, hlayout, hlost, hlast⟩ := ih hfresh hrest a' ha'
    cases hstep with
    | @skipped l i first cs more hfirst hfront =>
      obtain ⟨cs', hfirst', hfront', hadvance, -⟩ :=
        front_continued hc hfirst ha (by rw [hfront]; rfl) ha'
      have hskipped : Step v ⟨l, false, ⟨i.offset, a ++ '\\' :: '\n' :: c :: b⟩⟩ [] _ :=
        .skipped hfirst' (hfront'.trans hfront)
      rw [hadvance] at hskipped
      exact ⟨kept, lost, l', hts', .step hskipped hkept, hdepth, hlayout, hlost, hlast⟩
    | @token l i first cs kind more hfirst hfront =>
      obtain ⟨cs', hfirst', hfront', hadvance, htoken⟩ :=
        front_continued hc hfirst ha (by rw [hfront]; rfl) ha'
      have hread : Step v ⟨l, false, ⟨i.offset, a ++ '\\' :: '\n' :: c :: b⟩⟩ _ _ :=
        .token hfirst' (hfront'.trans hfront)
      rw [hadvance, htoken] at hread
      refine ⟨_, lost, l', by rw [hts', List.append_assoc], .step hread hkept, hdepth, hlayout,
        hlost, fun hnone => getLast?_append_of (fun _ u hu => ?_) (hlast hnone)⟩
      obtain rfl : i.token kind (more + 1) = u := Option.some.inj hu
      rcases front_isWord hfront with hword | ⟨rfl, -⟩
      · exact (TokenKind.isWord_iff.1 hword).2
      · rfl
    | opened l i =>
      have hopened := Step.opened_continued (v := v) ha ha'
      cases a' with
      | nil =>
        -- The line begins at the place, so its indentation is lost.
        obtain ⟨rfl, rfl⟩ : ts' = [] ∧ s' = _ := by
          refine hsteps.eq_or_size_lt.resolve_right fun hless => ?_
          rw [State.size, State.size, hfresh, hrest, ha'] at hless
          exact Nat.lt_irrefl _ hless
        rw [List.append_nil]
        refine ⟨[], (openLine l (skipBlankLines i)).1, l, rfl, .step hopened (.refl _),
          (depth_openLine l _).symm, fun hnil => (openLine_layout_of_nil hnil).symm,
          fun _ => isIndentation_of_mem_openLine, fun hnil u hu => ?_⟩
        rw [hnil] at hu
        cases hu
      | cons d a' =>
        rw [if_neg (List.cons_ne_nil d a'), if_neg (List.cons_ne_nil d a')] at hopened
        refine ⟨_, lost, l', by rw [hts', List.append_assoc], .step hopened hkept, hdepth, hlayout,
          hlost, fun hnone => getLast?_append_of (fun hnil u hu => ?_) (hlast hnone)⟩
        -- Behind tokens that show the indentation a word is next, and it stands at the place.
        have hword := atWord_openLine (l := l) (i := i) fun hnone => by rw [hnone] at hu; cases hu
        rw [hnil] at hsteps
        rw [hsteps.eq_of_atWord hword, ha'] at hrest
        have hlength := congrArg List.length hrest
        rw [List.cons_append, List.length_cons, List.length_append, List.length_cons] at hlength
        omega

/-! ### The tokens behind a continuation -/

/-- Behind a continuation the tokens are the same, two bytes later. -/
theorem run_continuation (v : Version) (l : Layout) (i : Input) :
    run v l false ⟨i.offset, '\\' :: '\n' :: i.rest⟩
      = (run v l false i).map (Token.shift 2) := by
  have hfront : front v l.depth '\\' (['\n'] ++ i.rest) = .skipped ['\n'].length :=
    front_continues (.inl rfl) l.depth
  exact (run_skipped hfront i.offset).trans (run_move 2 v l false i)

theorem ne_newline_of_isWord {depth more : Nat} {first : Char} {cs : List Char} {kind : TokenKind}
    (h : front v depth first cs = .token kind more) (hkind : kind.isWord = true) :
    first ≠ '\n' := by
  rintro rfl
  have hfeed : front v depth '\n' cs = if depth == 0 then .token .newline 0 else .skipped 0 := rfl
  rw [hfeed] at h
  split at h
  · cases h
    cases hkind
  · cases h

/-- The tokens of a text with a continuation in front of a word: first those that stand before the
    word, but for the `lost` ones that show the indentation of its line, and then all others. -/
theorem exists_continued {source : String} {before after : List Token} {t : Token}
    (h : tokenize v source = before ++ t :: after) (ht : t.kind.isWord = true) :
    ∃ kept lost later, before = kept ++ lost
      ∧ tokenize v (continuedAt source t.span.start) = kept ++ (t :: later).map (Token.shift 2)
      ∧ (lost = [] → later = after)
      ∧ (∀ u ∈ lost, u.kind.isIndentation = true)
      ∧ (lost = [] → ∀ u ∈ before.getLast?, u.kind.isIndentation = false) := by
  obtain ⟨-, -, l, i, first, cs, more, hbefore, hrest, hfront, heq, -⟩ := exists_readsAt h ht
  have hstart : t.span.start = i.offset := by rw [heq]; rfl
  obtain ⟨front', hsource, hsize⟩ := hbefore.leftOf (.ofChars source)
  -- The text with the continuation, and the steps up to it.
  have hcontinued : (continuedAt source t.span.start).toList
      = front' ++ '\\' :: '\n' :: i.rest := by
    rw [hstart, ← hsize]
    exact toList_continuedAt hsource
  rw [hrest] at hsource hcontinued
  obtain ⟨kept, lost, l', rfl, hkept, hdepth, hsame, hlost, hlast⟩ :=
    hbefore.interrupted (ne_newline_of_isWord hfront ht) rfl hrest front' hsource
  have htokens : tokenize v (continuedAt source t.span.start)
      = kept ++ (run v l' false i).map (Token.shift 2) := by
    rw [← run_continuation, hrest, tokenize, hcontinued]
    exact hkept.run
  have hword : run v l' false i
      = t :: run v (l'.after t.kind) (t.kind == .newline) (i.advance (more + 1)) := by
    rw [run_cons v l' hrest, hdepth, hfront]
    exact congrArg (· :: _) heq.symm
  refine ⟨kept, lost, _, rfl, by rw [htokens, hword], fun hnone => ?_, hlost, hlast⟩
  have hrun : tokenize v source = kept ++ lost ++ run v l false i := hbefore.run
  obtain rfl : l' = l := hsame hnone
  rw [hword, h] at hrun
  exact (List.cons.inj (List.append_cancel_left hrun)).2.symm

end Lexer

/-- In front of a word a continuation leaves all tokens as they are, unless the word is the first
    one of a line whose indentation is shown. -/
theorem continued_before_word_iff {v : Version} {source : String} {before after : List Token}
    {t : Token} (h : tokenize v source = before ++ t :: after) (ht : t.kind.isWord = true) :
    let continued := tokenize v (continuedAt source t.span.start)
    (continued.map Token.label = (tokenize v source).map Token.label
        ↔ ∀ u ∈ before.getLast?, u.kind.isIndentation = false)
      ∧ ((∀ u ∈ before.getLast?, u.kind.isIndentation = false) →
        continued = before ++ (t :: after).map (Token.shift 2)) := by
  intro continued
  obtain ⟨kept, lost, later, rfl, hcontinued, hlater, hlost, hlast⟩ :=
    Lexer.exists_continued h ht
  cases lost with
  | nil =>
    obtain rfl := hlater rfl
    rw [List.append_nil] at h hlast ⊢
    refine ⟨⟨fun _ => hlast rfl, fun _ => ?_⟩, fun _ => hcontinued⟩
    rw [show continued = _ from hcontinued, h, List.map_append, List.map_append, List.map_map]
    rfl
  | cons u lost =>
    -- The word stands where the first token was that shows the indentation.
    have hnot : ¬ ∀ u' ∈ (kept ++ u :: lost).getLast?, u'.kind.isIndentation = false := by
      intro hnone
      have hshown := hnone ((u :: lost).getLast (List.cons_ne_nil u lost)) (by
        rw [List.getLast?_append, List.getLast?_eq_some_getLast (List.cons_ne_nil u lost)]
        rfl)
      rw [hlost _ (List.getLast_mem _)] at hshown
      cases hshown
    refine ⟨⟨fun hlabels => ?_, fun hnone => absurd hnone hnot⟩, fun hnone => absurd hnone hnot⟩
    rw [show continued = _ from hcontinued, h, List.append_assoc, List.map_append,
      List.map_append] at hlabels
    have hkind : t.kind = u.kind :=
      congrArg Prod.fst (List.cons.inj (List.append_cancel_left hlabels)).1
    rw [hkind, TokenKind.isWord, hlost u List.mem_cons_self, Bool.not_true, Bool.and_false] at ht
    cases ht

/-- In front of a word behind another one. -/
theorem continued_before_word_iff_of_inside :
    let source := "if x:\n    y = 1\n"
    let before : List Token := [⟨.keyword .if, ⟨0, 2⟩, "if"⟩]
    let t : Token := ⟨.identifier, ⟨3, 4⟩, "x"⟩
    (∃ after, tokenize .v37 source = before ++ t :: after) ∧ t.kind.isWord = true
      ∧ (tokenize .v37 (continuedAt source t.span.start)).map Token.label
        = (tokenize .v37 source).map Token.label := by
  intro source before t
  have htokens : tokenize .v37 source = before ++ t :: (tokenize .v37 source).drop 2 := by
    decide +kernel
  refine ⟨⟨_, htokens⟩, rfl, (continued_before_word_iff htokens rfl).1.2 fun u hu => ?_⟩
  cases hu
  rfl

/-- In front of the first word of an indented line: neither its indent nor the dedent behind it is
    left. -/
theorem indent_lost_behind_continuation : ¬ ∀ before t after,
    tokenize .v37 "if x:\n    y\n" = before ++ t :: after → t.kind.isWord = true →
      (tokenize .v37 (continuedAt "if x:\n    y\n" t.span.start)).map Token.label
        = (tokenize .v37 "if x:\n    y\n").map Token.label := by
  intro hall
  have htokens : tokenize .v37 "if x:\n    y\n" = (tokenize .v37 "if x:\n    y\n").take 5
      ++ ⟨.identifier, ⟨10, 11⟩, "y"⟩ :: (tokenize .v37 "if x:\n    y\n").drop 6 := by
    decide +kernel
  have hcontinued : continuedAt "if x:\n    y\n" 10 = "if x:\n    \\\ny\n" := by
    decide +kernel
  have hlabels := hall _ _ _ htokens rfl
  rw [show continuedAt _ _ = _ from hcontinued] at hlabels
  revert hlabels
  decide +kernel

end PyAtlas
