import PyAtlas.Proofs.Token.Continuations
import PyAtlas.Proofs.Token.Returns

/-!
# Line endings

A text has the same tokens whether its lines end with a line feed, or with a carriage return and a
line feed: the kinds are the same, and so are the names of the identifiers. There is one exception:
a literal in single quotes may go on behind a line end that follows a backslash, but only if that
is a line feed alone. The backslash takes a carriage return with it, and then the line feed ends the
literal.

The lexer reads both texts side by side. What is left of the one is what is left of the other with
carriage returns, or it is at the end of a line and the carriage return has been read.

## Key definitions
- `withReturns`: a source text with a carriage return in front of every line feed.
- `Token.crossesLine`: a literal in single quotes that goes on behind a line feed.
- `UpToCut`: two streams that are the same up to such a literal.

## Key results
- `Lexer.skipBlankLines_withReturns`, `Lexer.openLine_withReturns`: how a line begins.
- `Lexer.exists_rereading`: one step inside a line.
- `Lexer.run_withReturns`: the tokens of the unread text.
- `tokenize_withReturns`: the tokens of a text with carriage returns.
-/

namespace PyAtlas

/-- The source text with a carriage return in front of every line feed. -/
def withReturns (source : String) : String :=
  String.ofList (Text.withReturns source.toList)

/-- Whether the token is a literal in single quotes that goes on behind a line feed. -/
def Token.crossesLine (t : Token) : Bool :=
  Lexer.crossesLine t.text.toList

/-! ### Streams that are the same up to a literal -/

/-- Two streams are the same, but for the places, up to a literal that goes on behind a line feed;
    in the other stream the literal is not closed. -/
inductive UpToCut : List Token → List Token → Prop
  | done : UpToCut [] []
  | same {t u : Token} {ts us : List Token} :
    t.crossesLine = false → u.label = t.label → UpToCut ts us → UpToCut (t :: ts) (u :: us)
  | cut {t u : Token} {ts us : List Token} :
    t.crossesLine = true → u.kind = .error .unterminatedString → UpToCut (t :: ts) (u :: us)

namespace UpToCut

variable {ts us ts' us' : List Token}

theorem append (h : us.map Token.label = ts.map Token.label)
    (hts : ∀ t ∈ ts, t.crossesLine = false) (h' : UpToCut ts' us') :
    UpToCut (ts ++ ts') (us ++ us') := by
  induction ts generalizing us with
  | nil =>
    obtain rfl := List.map_eq_nil_iff.1 h
    exact h'
  | cons t ts ih =>
    cases us with
    | nil => cases h
    | cons u us =>
      obtain ⟨hlabel, hlabels⟩ := List.cons.inj h
      obtain ⟨ht, hts⟩ := List.forall_mem_cons.1 hts
      exact .same ht hlabel (ih hlabels hts)

theorem labels_eq (h : UpToCut ts us) (hts : ∀ t ∈ ts, t.crossesLine = false) :
    us.map Token.label = ts.map Token.label := by
  induction h with
  | done => rfl
  | same _ hlabel _ ih =>
    rw [List.map_cons, List.map_cons, hlabel, ih (List.forall_mem_cons.1 hts).2]
  | cut ht _ =>
    rw [(List.forall_mem_cons.1 hts).1] at ht
    cases ht

/-- The first literal that goes on behind a line feed is not closed in the other stream. -/
theorem exists_cut {before after : List Token} {t : Token} (h : UpToCut (before ++ t :: after) us)
    (hbefore : ∀ t ∈ before, t.crossesLine = false) (ht : t.crossesLine = true) :
    ∃ before' u after', us = before' ++ u :: after'
      ∧ before'.map Token.label = before.map Token.label
      ∧ u.kind = .error .unterminatedString := by
  induction before generalizing us with
  | nil =>
    cases h with
    | same hnot _ _ =>
      rw [ht] at hnot
      cases hnot
    | cut _ hu => exact ⟨[], _, _, rfl, rfl, hu⟩
  | cons b before ih =>
    obtain ⟨hb, hbefore⟩ := List.forall_mem_cons.1 hbefore
    cases h with
    | same _ hlabel h =>
      obtain ⟨before', u, after', rfl, hlabels, hu⟩ := ih h hbefore
      exact ⟨_ :: before', u, after', rfl, by rw [List.map_cons, List.map_cons, hlabel, hlabels],
        hu⟩
    | cut hnot _ =>
      rw [hb] at hnot
      cases hnot

end UpToCut

namespace Lexer

open Text (withReturns_cons withReturns_feed)

variable {v : Version} {i : Input}

/-! ### The start of a line -/

/-- The margin of a blank line takes the carriage return; all other margins are the same. -/
theorem margin_withReturns (cs : List Char) :
    (∃ ds, cs.drop (countWhile isMargin cs) = '\n' :: ds
        ∧ (Text.withReturns cs).drop (countWhile isMargin (Text.withReturns cs))
          = '\n' :: Text.withReturns ds)
      ∨ (cs.drop (countWhile isMargin cs)).head? ≠ some '\n'
        ∧ (Text.withReturns cs).takeWhile isMargin = cs.takeWhile isMargin
        ∧ (Text.withReturns cs).drop (countWhile isMargin (Text.withReturns cs))
          = Text.withReturns (cs.drop (countWhile isMargin cs)) := by
  simp only [countWhile]
  induction cs with
  | nil => exact .inr ⟨by simp, rfl, rfl⟩
  | cons c cs ih =>
    by_cases hc : c = '\n'
    · subst hc
      exact .inl ⟨cs, rfl, rfl⟩
    rw [withReturns_cons hc]
    by_cases hmargin : isMargin c = true
    · rw [List.takeWhile_cons_of_pos hmargin, List.takeWhile_cons_of_pos hmargin]
      refine ih.imp id (And.imp_right (And.imp_left fun htake => ?_))
      rw [htake]
    · rw [List.takeWhile_cons_of_neg hmargin, List.takeWhile_cons_of_neg hmargin]
      exact .inr ⟨by simpa using hc, rfl, (withReturns_cons hc cs).symm⟩

/-- The same lines are passed over before a line begins. -/
theorem skipBlankLines_withReturns (j : Input) (h : j.rest = Text.withReturns i.rest) :
    (skipBlankLines j).rest = Text.withReturns (skipBlankLines i).rest := by
  -- Induction along the lines that are passed over. A carriage return belongs to the margin in front
  -- of its line feed, or to the comment.
  fun_induction skipBlankLines i generalizing j with
  | case1 i n cs hrest ih =>
    rcases margin_withReturns i.rest with ⟨ds, hds, hrest'⟩ | ⟨hhead, -⟩
    · obtain ⟨-, rfl⟩ := List.cons.inj (hds.symm.trans hrest)
      rw [← h] at hrest'
      rw [skipBlankLines_newline hrest']
      refine ih _ ?_
      simp only [Input.advance, ← List.drop_drop, hrest, hrest', n]
      rfl
    · exact absurd (congrArg List.head? hrest) hhead
  | case2 i n cs hrest ih =>
    rcases margin_withReturns i.rest with ⟨ds, hds, -⟩ | ⟨-, -, hrest'⟩
    · cases hds.symm.trans hrest
    · rw [hrest, withReturns_cons (by decide), ← h] at hrest'
      rw [skipBlankLines_comment hrest']
      refine ih _ ?_
      simp only [Input.advance, ← List.drop_drop, hrest, hrest', n, List.drop_succ_cons,
        List.drop_zero]
      rcases comment_withReturns cs with ⟨hend, hend'⟩ | ⟨ds, hend, hend'⟩
      · rw [hend, hend']
        rfl
      · rw [hend, hend']
        rfl
  | case3 i n hother hno =>
    rcases margin_withReturns i.rest with ⟨ds, hds, -⟩ | ⟨hhead, -, hrest'⟩
    · exact (hother ds hds).elim
    · -- The first character behind the margin is the same.
      have hfirst : ∀ c cs, j.rest.drop (countWhile isMargin j.rest) = c :: cs →
          (i.rest.drop (countWhile isMargin i.rest)).head? = some c := by
        intro c cs hcs
        rw [h, hrest'] at hcs
        cases hbody : i.rest.drop (countWhile isMargin i.rest) with
        | nil =>
          rw [hbody] at hcs
          cases hcs
        | cons d ds =>
          have hd : d ≠ '\n' := fun hd => hhead (by rw [hbody, hd]; rfl)
          rw [hbody, withReturns_cons hd] at hcs
          exact congrArg some (List.cons.inj hcs).1
      rw [skipBlankLines_of_ne, h]
      · intro cs hcs
        exact hhead (hfirst _ _ hcs)
      · intro cs hcs
        obtain ⟨ds, hds⟩ := List.head?_eq_some_iff.1 (hfirst _ _ hcs)
        exact hno ds hds

/-- A line begins alike: the layout is the same, and the tokens that show its indentation. -/
theorem openLine_withReturns (l : Layout)
    (hline : (i.rest.drop (countWhile isMargin i.rest)).head? ≠ some '\n') {j : Input}
    (h : j.rest = Text.withReturns i.rest) :
    (openLine l j).1.map Token.label = (openLine l i).1.map Token.label
      ∧ (openLine l j).2.1 = (openLine l i).2.1
      ∧ (openLine l j).2.2.rest = Text.withReturns (openLine l i).2.2.rest := by
  obtain ⟨hmargin, hbody⟩ : j.rest.takeWhile isMargin = i.rest.takeWhile isMargin
      ∧ (j.skipWhile isMargin).rest = Text.withReturns (i.skipWhile isMargin).rest := by
    rcases margin_withReturns i.rest with ⟨ds, hds, -⟩ | ⟨-, hmargin, hbody⟩
    · exact absurd (congrArg List.head? hds) hline
    · rw [← h] at hmargin hbody
      exact ⟨hmargin, hbody⟩
  rw [openLine_input, openLine_input, ← and_assoc]
  refine ⟨?_, hbody⟩
  have hcolumn : marginColumn j.rest = marginColumn i.rest := by
    rw [marginColumn, hmargin, marginColumn]
  simp only [openLine, hbody, hcolumn]
  cases hrest : (i.skipWhile isMargin).rest with
  | nil => exact ⟨rfl, rfl⟩
  | cons c cs =>
    have hc : c ≠ '\n' := by
      rintro rfl
      exact hline (congrArg List.head? hrest)
    rw [withReturns_cons hc]
    dsimp only
    split
    · exact ⟨rfl, rfl⟩
    · split
      · exact ⟨rfl, rfl⟩
      · split
        · rw [List.map_map, List.map_map]
          exact ⟨rfl, rfl⟩
        · rw [List.map_append, List.map_append, List.map_map, List.map_map]
          exact ⟨rfl, rfl⟩

/-- What shows the indentation of a line holds no line feed. -/
theorem newline_not_mem_openLine {l : Layout} {t : Token} (h : t ∈ (openLine l i).1) :
    '\n' ∉ t.text.toList := by
  have hdedents : ∀ columns : List Nat,
      t ∈ columns.map (fun _ => (i.skipWhile isMargin).token .dedent 0) →
        '\n' ∉ t.text.toList := by
    intro columns hmem
    obtain ⟨_, -, rfl⟩ := List.mem_map.1 hmem
    nofun
  have hmargin : '\n' ∉ (i.token .indent (countWhile isMargin i.rest)).text.toList := by
    rw [Input.token, String.toList_ofList]
    exact inFirstLine_countWhile rfl i.rest
  simp only [openLine] at h
  split at h
  · cases h
  · split at h
    · cases h
    · split at h
      · rw [List.mem_singleton.1 h]
        exact hmargin
      · split at h
        · exact hdedents _ h
        · rcases List.mem_append.1 h with h | h
          · exact hdedents _ h
          · rw [List.mem_singleton.1 h]
            exact hmargin

theorem finish_upToCut (l : Layout) (size size' : Nat) :
    UpToCut (finish l size) (finish l size') := by
  have hlabels : (finish l size').map Token.label = (finish l size).map Token.label := by
    simp only [finish, List.map_append, List.map_map]
    split <;> rfl
  have hempty : ∀ t ∈ finish l size, t.crossesLine = false := by
    intro t ht
    simp only [finish, List.mem_append, List.mem_map, List.mem_singleton] at ht
    rcases ht with (ht | ⟨_, -, rfl⟩) | rfl
    · split at ht
      · rw [List.mem_singleton.1 ht]
        rfl
      · cases ht
    · rfl
    · rfl
  simpa using UpToCut.append hlabels hempty .done

/-! ### Reading on -/

namespace SameRest

variable {fresh : Bool} {first : Char} {cs ds : List Char}

/-- Where a line begins no carriage return has been read. -/
theorem eq_of_fresh (h : SameRest true cs ds) : ds = Text.withReturns cs := by
  cases h
  rfl

theorem eq_nil (h : SameRest fresh [] ds) : ds = [] := by
  cases h
  rfl

theorem eq_of_ne (h : SameRest fresh (first :: cs) ds) (hfirst : first ≠ '\n') :
    ds = first :: Text.withReturns cs := by
  cases h with
  | all => exact withReturns_cons hfirst cs
  | feed => exact absurd rfl hfirst

theorem eq_or_eq (h : SameRest fresh ('\n' :: cs) ds) :
    ds = '\r' :: '\n' :: Text.withReturns cs ∨ ds = '\n' :: Text.withReturns cs := by
  cases h with
  | all => exact .inl rfl
  | feed => exact .inr rfl

end SameRest

/-- One step inside a line. In front of a line feed the carriage return is passed over first. -/
theorem exists_rereading (v : Version) (l : Layout) {j : Input} {first : Char} {cs : List Char}
    (h : SameRest false (first :: cs) j.rest) (hreturn : '\r' ∉ cs) : ∃ j' ds,
      run v l false j = run v l false j' ∧ j'.rest = first :: ds
        ∧ Rereading (first :: cs) (first :: ds) (front v l.depth first cs)
          (front v l.depth first ds) := by
  by_cases hfirst : first = '\n'
  · subst hfirst
    have hread : Rereading ('\n' :: cs) ('\n' :: Text.withReturns cs)
        (front v l.depth '\n' cs) (front v l.depth '\n' (Text.withReturns cs)) := by
      have hfeed : ∀ cs, front v l.depth '\n' cs
          = if l.depth == 0 then .token .newline 0 else .skipped 0 := fun _ => rfl
      rw [hfeed, hfeed]
      split
      · exact .token rfl nofun (.all _ cs)
      · exact .skipped (.all _ cs)
    rcases h.eq_or_eq with hrest | hrest
    · refine ⟨⟨j.offset + Text.byteSize ['\r'], '\n' :: Text.withReturns cs⟩, _, ?_, rfl, hread⟩
      rw [← run_margin (c := '\r') rfl, ← hrest]
    · exact ⟨j, _, rfl, hrest, hread⟩
  · exact ⟨j, _, rfl, h.eq_of_ne hfirst, front_withReturns v l.depth hfirst hreturn⟩

/-- The tokens of the unread text are alike with carriage returns and without them. -/
theorem run_withReturns (v : Version) (l : Layout) (fresh : Bool) (i : Input)
    (hreturn : '\r' ∉ i.rest) (j : Input) (h : SameRest fresh i.rest j.rest) :
    UpToCut (run v l fresh i) (run v l fresh j) := by
  have hmore : ∀ {i : Input}, '\r' ∉ i.rest → ∀ n, '\r' ∉ (i.advance n).rest :=
    fun hi n hmem => hi (List.mem_of_mem_drop hmem)
  -- The lexer takes a step on the text without carriage returns, and one or two on the other. What
  -- is left stays related but behind a literal that is cut, and there nothing is to be shown.
  fun_induction run v l fresh i generalizing j with
  | case1 l i opened ih =>
    have hskipped := skipBlankLines_withReturns j h.eq_of_fresh
    obtain ⟨n, hn⟩ := skipBlankLines_eq_advance i
    have hline : ((skipBlankLines i).rest.drop
        (countWhile isMargin (skipBlankLines i).rest)).head? ≠ some '\n' := by
      intro hfeed
      obtain ⟨cs, hcs⟩ := List.head?_eq_some_iff.1 hfeed
      exact (not_blank_skipBlankLines i hcs).1 rfl
    obtain ⟨hlabels, hlayout, hrest⟩ := openLine_withReturns l hline hskipped
    rw [run_fresh, hlayout]
    refine UpToCut.append hlabels
      (fun t ht => crossesLine_of_not_mem (newline_not_mem_openLine ht)) (ih ?_ _ ?_)
    · show '\r' ∉ (openLine l (skipBlankLines i)).2.2.rest
      rw [openLine_input, hn]
      exact hmore (hmore hreturn n) _
    · rw [hrest]
      exact .all _ _
  | case2 l fresh i hfresh hrest =>
    obtain rfl : fresh = false := Bool.eq_false_iff.2 hfresh
    rw [hrest] at h
    rw [run_nil v l h.eq_nil]
    exact finish_upToCut l _ _
  | case3 l fresh i hfresh first cs hrest more hfront ih =>
    obtain rfl : fresh = false := Bool.eq_false_iff.2 hfresh
    have hcs : '\r' ∉ cs := fun hmem => hreturn (hrest ▸ List.mem_cons_of_mem first hmem)
    obtain ⟨j', ds, hsame, hrest', hread⟩ := exists_rereading v l (hrest ▸ h) hcs
    rw [hfront, ← hrest, ← hrest'] at hread
    rw [hsame, run_cons v l hrest']
    generalize front v l.depth first ds = read at hread ⊢
    cases hread with
    | skipped hleft => exact ih (hmore hreturn _) _ hleft
  | case4 l fresh i hfresh first cs hrest kind more hfront ih =>
    obtain rfl : fresh = false := Bool.eq_false_iff.2 hfresh
    have hcs : '\r' ∉ cs := fun hmem => hreturn (hrest ▸ List.mem_cons_of_mem first hmem)
    obtain ⟨j', ds, hsame, hrest', hread⟩ := exists_rereading v l (hrest ▸ h) hcs
    rw [hfront, ← hrest, ← hrest'] at hread
    rw [hsame, run_cons v l hrest']
    generalize front v l.depth first ds = read at hread ⊢
    have htext : (i.token kind (more + 1)).crossesLine
        = crossesLine (i.rest.take (more + 1)) := by
      rw [Token.crossesLine, Input.token, String.toList_ofList]
    cases hread with
    | token hstays hname hleft =>
      refine .same (htext.trans hstays) ?_ (ih (hmore hreturn _) _ hleft)
      refine congrArg (Prod.mk kind) ?_
      show (if kind = .identifier then _ else "") = if kind = .identifier then _ else ""
      split
      · rename_i hkind
        exact congrArg String.ofList (hname hkind)
      · rfl
    | cut hcrosses => exact .cut (htext.trans hcrosses) rfl

end Lexer

/-- Where lines end with a carriage return and a line feed the tokens are the same, but for their
    places, if no literal in single quotes goes on behind a line feed. The first one that does is
    not closed there. -/
theorem tokenize_withReturns {v : Version} {source : String} (h : '\r' ∉ source.toList) :
    ((∀ t ∈ tokenize v source, t.crossesLine = false) →
        (tokenize v (withReturns source)).map Token.label = (tokenize v source).map Token.label)
      ∧ ∀ before t after, tokenize v source = before ++ t :: after →
        (∀ u ∈ before, u.crossesLine = false) → t.crossesLine = true →
        ∃ before' u after', tokenize v (withReturns source) = before' ++ u :: after'
          ∧ before'.map Token.label = before.map Token.label
          ∧ u.kind = .error .unterminatedString := by
  have hcut : UpToCut (tokenize v source) (tokenize v (withReturns source)) := by
    refine Lexer.run_withReturns v .initial true _ h _ ?_
    rw [withReturns, String.toList_ofList]
    exact .all true _
  refine ⟨hcut.labels_eq, fun before t after htokens hbefore ht => ?_⟩
  rw [htokens] at hcut
  exact hcut.exists_cut hbefore ht

/-- A bracket and a literal in triple quotes over several lines, a comment and a continuation. -/
theorem tokenize_withReturns_of_lines :
    let source := "if x: # a\n\n  y = (\n    '''b\\\n''')\n  z = \\\n    1\n"
    '\r' ∉ source.toList ∧ (∀ t ∈ tokenize .v37 source, t.crossesLine = false)
      ∧ (tokenize .v37 (withReturns source)).map Token.label
        = (tokenize .v37 source).map Token.label := by
  intro source
  have hreturn : '\r' ∉ source.toList := by decide +kernel
  have hlines : ∀ t ∈ tokenize .v37 source, t.crossesLine = false := by decide +kernel
  exact ⟨hreturn, hlines, (tokenize_withReturns hreturn).1 hlines⟩

/-- A literal in single quotes over two lines is closed if they end with a line feed, and not if a
    carriage return stands before it. -/
theorem returns_cut_literal : ¬ ∀ (v : Version) (source : String), '\r' ∉ source.toList →
    (tokenize v (withReturns source)).map Token.label
      = (tokenize v source).map Token.label := by
  intro hall
  have hlabels := hall .v37 "'a\\\nb'\n" (by decide +kernel)
  revert hlabels
  decide +kernel

end PyAtlas
